import MessageCard.Proofs.Layout.Drawing
import MessageCard.Proofs.Layout.Settling
import MessageCard.Proofs.Template.Reading

/-!
# Heights on record

A text of flexible height has one constraint for its height, under one handle, and the height that
the constraint asks for is kept on record. A round of measuring puts another height in the place of
the one that a text turned out not to have, in the constraint and on the record alike, and touches
no constraint but these. The last round, if it is not cut short, finds every text as high as its
constraint says, so the lines that are drawn in the end take the space that was made for them.
-/
namespace MessageCard

/-! ## One constraint replaced -/

namespace Board

variable {σ : Type} {b t : Board σ}

/-- The constraints present, with their handles, that belong to none of some owners. -/
def others (b : Board σ) (os : List Owner) : List (Handle × Constraint) :=
  b.system.present.filter fun p => ∀ o ∈ os, p.1 ∉ b.handles o

/-- The texts of nodes that are shown and have constraints for their heights. -/
def textOwners (b : Board σ) (nodes : List OutlineNode) : List Owner :=
  (nodes.filter fun n => n.shownText?.isSome && b.handles (.text n.id) ≠ []).map (.text ·.id)

theorem mem_textOwners {nodes : List OutlineNode} {n : OutlineNode} (hn : n ∈ nodes)
    (hshown : n.shownText?.isSome) (hhandles : b.handles (.text n.id) ≠ []) :
    .text n.id ∈ b.textOwners nodes :=
  List.mem_map.mpr ⟨n, List.mem_filter.mpr ⟨hn, by simp [hshown, hhandles]⟩, rfl⟩

/-- A board on which one constraint took the place of those that an owner had. -/
structure Replaced (o : Owner) (c : Constraint) (b t : Board σ) : Prop where
  present : t.system.present =
    (⟨b.system.nextHandle⟩, c) :: b.system.present.filter (·.1 ∉ b.handles o)
  owned : t.owned = b.owned.filter (·.1 ≠ o) ++ [(o, ⟨b.system.nextHandle⟩)]

variable {o : Owner} {c : Constraint}

/-- The owner has the new constraint under a handle that was never there before. -/
theorem Replaced.handles_self (h : Replaced o c b t) : t.handles o = [⟨b.system.nextHandle⟩] := by
  have hgone : (b.owned.filter (·.1 ≠ o)).filter (·.1 = o) = [] := by
    rw [List.filter_filter, List.filter_eq_nil_iff]
    simp
  rw [handles, h.owned, List.filter_append, hgone]
  simp

theorem Replaced.handles_of_ne (h : Replaced o c b t) {o' : Owner} (hne : o' ≠ o) :
    t.handles o' = b.handles o' := by
  have hkept : (b.owned.filter (·.1 ≠ o)).filter (·.1 = o') = b.owned.filter (·.1 = o') := by
    rw [List.filter_filter]
    refine List.filter_congr fun p _ => ?_
    by_cases hp : p.1 = o'
    · simp [hp, hne]
    · simp [hp]
  rw [handles, h.owned, List.filter_append, hkept]
  simp [handles, hne.symm]

variable [RelationSolver σ]

theorem IsSound.exists_replaced (h : b.IsSound) (o : Owner) (c : Constraint) :
    ∃ t, b.follow (.replace o [c]) = .ok t ∧ t.IsSound ∧ Replaced o c b t := by
  obtain ⟨s, hs, -, hpresent, hnext, -⟩ :=
    ConstraintSystem.exists_removeAll h.system (h.handles_live o) (h.handles_nodup o)
  have hfollow : b.follow (.replace o [c]) =
      .ok (Board.own ⟨s, b.owned.filter (·.1 ≠ o)⟩ o c) := by
    rw [follow, disown, hs]
    rfl
  refine ⟨_, hfollow, (h.of_follow hfollow).1, ?_, ?_⟩
  · rw [own_eq, ConstraintSystem.add_present, hpresent, hnext]
  · rw [own_eq, hnext]

/-- What belongs to none of some owners is not touched when a constraint of one of them is
replaced. -/
theorem Replaced.others_eq (h : Replaced o c b t) (hsound : b.IsSound) {os : List Owner}
    (ho : o ∈ os) : t.others os = b.others os := by
  have hnew : ¬∀ o' ∈ os, (⟨b.system.nextHandle⟩ : Handle) ∉ t.handles o' := by
    intro hall
    have hnot := hall o ho
    rw [h.handles_self] at hnot
    exact hnot (List.mem_singleton_self _)
  rw [others, h.present, List.filter_cons_of_neg (by simpa using hnew), List.filter_filter, others]
  refine List.filter_congr fun p hp => ?_
  have hnext : p.1 ≠ ⟨b.system.nextHandle⟩ := fun he =>
    hsound.system.next_not_mem (he ▸ List.mem_map_of_mem hp)
  rw [Bool.eq_iff_iff, Bool.and_eq_true, decide_eq_true_eq, decide_eq_true_eq, decide_eq_true_eq]
  constructor
  · rintro ⟨hothers, hself⟩ o' ho'
    by_cases he : o' = o
    · exact he ▸ hself
    · exact h.handles_of_ne he ▸ hothers o' ho'
  · intro hall
    refine ⟨fun o' ho' => ?_, hall o ho⟩
    by_cases he : o' = o
    · rw [he, h.handles_self]
      simpa using hnext
    · exact h.handles_of_ne he ▸ hall o' ho'

/-- An owner without constraints has no handles. -/
theorem IsSound.ofOwner_eq_nil_iff (h : b.IsSound) (o : Owner) :
    b.sheet.ofOwner o = [] ↔ b.handles o = [] := by
  constructor
  · intro hnil
    have hperm := h.ofOwner_perm o
    rw [hnil, List.nil_perm, List.map_eq_nil_iff, List.filter_eq_nil_iff] at hperm
    refine List.eq_nil_iff_forall_not_mem.mpr fun x hx => ?_
    obtain ⟨p, hp, rfl⟩ := List.mem_map.mp (h.handles_live o x hx)
    exact hperm p hp (by simpa using hx)
  · intro hnil
    have hperm := h.ofOwner_perm o
    simpa [hnil] using hperm

/-- An owner with one constraint has one handle, which names it and nothing else. -/
theorem IsSound.ofOwner_eq_singleton_iff (h : b.IsSound) (o : Owner) (c : Constraint) :
    b.sheet.ofOwner o = [c] ↔
      ∃ x, b.handles o = [x] ∧ ∀ d, (x, d) ∈ b.system.present ↔ d = c := by
  have hperm := h.ofOwner_perm o
  have hpresent : b.system.present.Nodup := h.system.distinct.of_map _
  constructor
  · intro hone
    rw [hone, List.singleton_perm] at hperm
    obtain ⟨⟨x, d⟩, hfilter, rfl⟩ := List.map_eq_singleton_iff.mp hperm.symm
    have hmem : ∀ p, p ∈ b.system.present ∧ p.1 ∈ b.handles o ↔ p = (x, d) := by
      intro p
      rw [← List.mem_singleton, ← hfilter, List.mem_filter]
      simp
    obtain ⟨hx, hkept⟩ := (hmem (x, d)).mpr rfl
    refine ⟨x, List.perm_singleton.mp ((List.perm_ext_iff_of_nodup (h.handles_nodup o)
      (List.nodup_singleton x)).mpr fun y => ?_), fun e => ?_⟩
    · rw [List.mem_singleton]
      refine ⟨fun hy => ?_, fun hy => hy ▸ hkept⟩
      obtain ⟨p, hp, rfl⟩ := List.mem_map.mp (h.handles_live o y hy)
      exact congrArg Prod.fst ((hmem p).mp ⟨hp, hy⟩)
    · exact ⟨fun he => congrArg Prod.snd ((hmem (x, e)).mp ⟨he, hkept⟩), fun he => he ▸ hx⟩
  · rintro ⟨x, hx, honly⟩
    have hfilter : b.system.present.filter (·.1 ∈ b.handles o) = [(x, c)] := by
      refine List.perm_singleton.mp ((List.perm_ext_iff_of_nodup (hpresent.filter _)
        (List.nodup_singleton _)).mpr fun p => ?_)
      obtain ⟨y, d⟩ := p
      rw [List.mem_filter, List.mem_singleton, Prod.mk.injEq, hx]
      constructor
      · rintro ⟨hp, hy⟩
        obtain rfl : y = x := by simpa using hy
        exact ⟨rfl, (honly d).mp hp⟩
      · rintro ⟨rfl, rfl⟩
        exact ⟨(honly d).mpr rfl, by simp⟩
    rw [hfilter] at hperm
    exact List.perm_singleton.mp hperm

end Board

/-! ## Records -/

variable {σ : Type}

/-- The height on record for a text is what its one constraint asks for; a text without a height on
record has no constraint for it. -/
structure Measured.Records (s : Measured σ) (n : OutlineNode) : Prop where
  bare : s.heights.find? n.id = none → s.board.handles (.text n.id) = []
  active : ∀ height, s.heights.find? n.id = some height → ∃ h, s.board.handles (.text n.id) = [h] ∧
    ∀ c, (h, c) ∈ s.board.system.present ↔ c = Rules.textHeight n.id n.view height

/-- A text is on record if the constraints it owns are as the record says. -/
theorem Measured.records_iff [RelationSolver σ] {s : Measured σ} {n : OutlineNode}
    (h : s.board.IsSound) : s.Records n ↔ s.board.sheet.ofOwner (.text n.id) =
      ((s.heights.find? n.id).map (Rules.textHeight n.id n.view)).toList := by
  cases hfind : s.heights.find? n.id with
  | none =>
    rw [Option.map_none, Option.toList_none, h.ofOwner_eq_nil_iff]
    refine ⟨fun hrecords => hrecords.bare hfind, fun hnil => ⟨fun _ => hnil, fun height he => ?_⟩⟩
    rw [hfind] at he
    cases he
  | some height =>
    rw [Option.map_some, Option.toList_some, h.ofOwner_eq_singleton_iff]
    refine ⟨fun hrecords => hrecords.active height hfind,
      fun hone => ⟨fun he => ?_, fun height' he => ?_⟩⟩
    · rw [hfind] at he
      cases he
    · rw [hfind] at he
      cases he
      exact hone

theorem Measured.Records.handles_eq_nil_iff {s : Measured σ} {n : OutlineNode} (h : s.Records n) :
    s.board.handles (.text n.id) = [] ↔ s.heights.find? n.id = none := by
  refine ⟨fun hnil => ?_, h.bare⟩
  cases hfind : s.heights.find? n.id with
  | none => rfl
  | some height =>
    obtain ⟨x, hx, -⟩ := h.active height hfind
    simp [hx] at hnil

variable [RelationSolver σ]

/-- The heights of the texts of some nodes are on record. -/
structure Measured.IsRecorded (nodes : List OutlineNode) (s : Measured σ) : Prop where
  sound : s.board.IsSound
  distinct : (nodes.map (·.id)).Nodup
  records : ∀ n ∈ nodes, n.shownText?.isSome → s.Records n
  flexible : ∀ n ∈ nodes, n.shownText?.isSome → n.view.height.isFixed = false →
    (s.heights.find? n.id).isSome

/-- Heights that were put in the place of others, in texts that are shown and have constraints for
their heights. -/
structure Measured.Corrects (nodes : List OutlineNode) (s t : Measured σ) : Prop where
  recorded : t.IsRecorded nodes
  owners : t.board.textOwners nodes = s.board.textOwners nodes
  others : t.board.others (s.board.textOwners nodes) = s.board.others (s.board.textOwners nodes)

namespace Measured

variable {nodes : List OutlineNode} {r s t : Measured σ}

theorem IsRecorded.corrects_self (h : s.IsRecorded nodes) : s.Corrects nodes s := ⟨h, rfl, rfl⟩

theorem Corrects.trans (h : r.Corrects nodes s) (h' : s.Corrects nodes t) : r.Corrects nodes t where
  recorded := h'.recorded
  owners := h'.owners.trans h.owners
  others := (h.owners ▸ h'.others).trans h.others

theorem IsRecorded.solve (h : s.IsRecorded nodes) :
    IsRecorded nodes { s with board := s.board.solve.2 } where
  sound := h.sound.solve
  distinct := h.distinct
  records n hn hshown := ⟨(h.records n hn hshown).bare, (h.records n hn hshown).active⟩
  flexible := h.flexible

theorem Corrects.solve (h : s.Corrects nodes t) :
    s.Corrects nodes { t with board := t.board.solve.2 } :=
  ⟨h.recorded.solve, h.owners, h.others⟩

/-- A height put in the place of another one is on record. -/
theorem IsRecorded.correct {n : OutlineNode} {before : Binary64} (h : s.IsRecorded nodes)
    (hn : n ∈ nodes) (hshown : n.shownText?.isSome) (hbefore : s.heights.find? n.id = some before)
    (height : Binary64) :
    ∃ b, s.board.follow (.replace (.text n.id) [Rules.textHeight n.id n.view height]) = .ok b ∧
      s.Corrects nodes ⟨b, s.heights.insert n.id height⟩ := by
  obtain ⟨b, hfollow, hb, hreplaced⟩ :=
    h.sound.exists_replaced (.text n.id) (Rules.textHeight n.id n.view height)
  have hsheet := (h.sound.of_follow hfollow).2
  have hhandles : s.board.handles (.text n.id) ≠ [] := by
    rw [Ne, (h.records n hn hshown).handles_eq_nil_iff, hbefore]
    exact Option.some_ne_none before
  have hsame : ∀ k ∈ nodes, n.id = k.id → n = k := fun k hk =>
    List.inj_on_of_nodup_map h.distinct hn hk
  have hother : ∀ k : OutlineNode, n.id ≠ k.id → Owner.text k.id ≠ .text n.id :=
    fun k hid he => hid (Owner.text.inj he).symm
  refine ⟨b, hfollow, ⟨hb, h.distinct, fun k hk hkshown => ?_, fun k hk hkshown hflexible => ?_⟩,
    ?_, hreplaced.others_eq h.sound (Board.mem_textOwners hn hshown hhandles)⟩
  · rw [Measured.records_iff hb, hsheet, Table.find?_insert]
    by_cases hid : n.id = k.id
    · cases hsame k hk hid
      rw [Sheet.ofOwner_replace_self, if_pos rfl]
      rfl
    · rw [Sheet.ofOwner_replace_of_ne _ _ (hother k hid), if_neg hid]
      exact (Measured.records_iff h.sound).mp (h.records k hk hkshown)
  · rw [Table.find?_insert]
    split
    · rfl
    · exact h.flexible k hk hkshown hflexible
  · refine congrArg (List.map _) (List.filter_congr fun k hk => ?_)
    by_cases hid : n.id = k.id
    · cases hsame k hk hid
      simp [hreplaced.handles_self, hhandles]
    · rw [hreplaced.handles_of_ne (hother k hid)]

/-- What other owners are given and lose is not on record. -/
theorem IsRecorded.replace {o : Owner} {cs : List Constraint} {b : Board σ}
    (h : s.IsRecorded nodes) (ho : ∀ k, o ≠ .text k) (hb : s.board.follow (.replace o cs) = .ok b) :
    IsRecorded nodes { s with board := b } := by
  obtain ⟨hsound, hsheet⟩ := h.sound.of_follow hb
  refine ⟨hsound, h.distinct, fun n hn hshown => ?_, h.flexible⟩
  rw [Measured.records_iff hsound, hsheet, Sheet.ofOwner_replace_of_ne _ _ (ho n.id).symm]
  exact (Measured.records_iff h.sound).mp (h.records n hn hshown)

end Measured

/-! ## Rounds -/

variable {m : TextMeasurer} {solution : Solution} {nodes : List OutlineNode}

/-- Measuring a text again keeps the record. -/
theorem Measured.IsRecorded.remeasure {s t : Measured σ × Bool} {n : OutlineNode}
    (h : s.1.IsRecorded nodes) (hn : n ∈ nodes) (ht : remeasure m solution s n = .ok t) :
    s.1.Corrects nodes t.1 := by
  unfold MessageCard.remeasure at ht
  split at ht
  case h_1 text before htext hbefore =>
    dsimp only at ht
    split at ht
    case isTrue =>
      have hshown : n.shownText?.isSome := Option.isSome_iff_exists.mpr ⟨text, htext⟩
      obtain ⟨b, hfollow, hcorrects⟩ := h.correct hn hshown hbefore
        (m.measure text.font (wrapWidth solution n) text.maxLines text.text.toList).height
      rw [hfollow] at ht
      cases ht
      exact hcorrects
    case isFalse =>
      cases ht
      exact h.corrects_self
  case h_2 =>
    cases ht
    exact h.corrects_self

/-- A text that was left alone fits. -/
theorem fits_of_remeasure {s t : Measured σ × Bool} {n : OutlineNode}
    (ht : remeasure m solution s n = .ok t) (hcalm : t.2 = false) :
    t = s ∧ n.FitsText m solution s.1.heights := by
  unfold remeasure at ht
  split at ht
  case h_1 text before htext hbefore =>
    dsimp only at ht
    split at ht
    case isTrue =>
      obtain ⟨board, -, hok⟩ := bind_eq_ok_iff.mp ht
      cases hok
      cases hcalm
    case isFalse hfits =>
      cases ht
      refine ⟨rfl, fun text' before' htext' hbefore' => ?_⟩
      rw [htext] at htext'
      rw [hbefore] at hbefore'
      cases htext'
      cases hbefore'
      exact hfits
  case h_2 hneither =>
    cases ht
    exact ⟨rfl, fun text before htext hbefore => absurd hbefore (hneither text before htext)⟩

theorem Measured.IsRecorded.foldlM_remeasure {ks : List OutlineNode} (hks : ks ⊆ nodes)
    {s t : Measured σ × Bool} (h : s.1.IsRecorded nodes)
    (ht : ks.foldlM (MessageCard.remeasure m solution) s = .ok t) : s.1.Corrects nodes t.1 := by
  induction ks generalizing s with
  | nil =>
    cases ht
    exact h.corrects_self
  | cons k ks ih =>
    rw [List.foldlM_cons] at ht
    obtain ⟨r, hr, ht⟩ := bind_eq_ok_iff.mp ht
    have hfirst := h.remeasure (hks List.mem_cons_self) hr
    exact hfirst.trans (ih (fun _ hk => hks (List.mem_cons_of_mem _ hk)) hfirst.recorded ht)

theorem fits_of_foldlM_remeasure {ks : List OutlineNode} {s t : Measured σ × Bool}
    (ht : ks.foldlM (remeasure m solution) s = .ok t) (hcalm : t.2 = false) :
    t = s ∧ ∀ n ∈ ks, n.FitsText m solution s.1.heights := by
  induction ks generalizing s with
  | nil =>
    cases ht
    exact ⟨rfl, fun _ hn => absurd hn List.not_mem_nil⟩
  | cons k ks ih =>
    rw [List.foldlM_cons] at ht
    obtain ⟨r, hr, ht⟩ := bind_eq_ok_iff.mp ht
    obtain ⟨rfl, hrest⟩ := ih ht
    obtain ⟨rfl, hfits⟩ := fits_of_remeasure hr hcalm
    exact ⟨rfl, List.forall_mem_cons.mpr ⟨hfits, hrest⟩⟩

/-- A round keeps the record. -/
theorem Measured.IsRecorded.measureRound {s : Measured σ} {t : Measured σ × Bool}
    (h : s.IsRecorded nodes) (ht : measureRound m nodes s = .ok t) : s.Corrects nodes t.1 :=
  h.corrects_self.solve.trans (h.solve.foldlM_remeasure (List.Subset.refl nodes) ht)

/-- A round that changes nothing has solved, and every text fits. -/
theorem fits_of_measureRound {s t : Measured σ} (ht : measureRound m nodes s = .ok (t, false)) :
    t = { s with board := s.board.solve.2 } ∧
      ∀ n ∈ nodes, n.FitsText m s.board.solve.1 s.heights := by
  obtain ⟨hsame, hfits⟩ := fits_of_foldlM_remeasure ht rfl
  exact ⟨congrArg Prod.fst hsame, hfits⟩

/-- Rounds made one after another, a given number of them at most: what there was after each, what
there is in the end, and whether the last round found nothing to change. -/
inductive Measured.Rounds (m : TextMeasurer) (nodes : List OutlineNode) :
    Nat → Measured σ → List (Measured σ) → Measured σ → Bool → Prop
  | spent (s : Measured σ) : Rounds m nodes 0 s [] s false
  | calm {k : Nat} {s t : Measured σ} (ht : measureRound m nodes s = .ok (t, false)) :
      Rounds m nodes (k + 1) s [t] t true
  | changed {k : Nat} {s t u : Measured σ} {ts : List (Measured σ)} {rested : Bool}
      (ht : measureRound m nodes s = .ok (t, true)) (rest : Rounds m nodes k t ts u rested) :
      Rounds m nodes (k + 1) s (t :: ts) u rested

namespace Measured

variable {k : Nat} {s u : Measured σ} {ts : List (Measured σ)} {rested : Bool}

/-- Rounds can always be made. -/
theorem IsRecorded.exists_rounds (h : s.IsRecorded nodes) (m : TextMeasurer) (k : Nat) :
    ∃ ts u rested, settleHeights m nodes k s = .ok u ∧ Rounds m nodes k s ts u rested := by
  induction k generalizing s with
  | zero => exact ⟨[], s, false, rfl, .spent s⟩
  | succ k ih =>
    obtain ⟨⟨t, changed⟩, ht, -⟩ := exists_measureRound m nodes h.sound
    cases changed with
    | false =>
      refine ⟨[t], t, true, ?_, .calm ht⟩
      rw [settleHeights, ht]
      rfl
    | true =>
      obtain ⟨ts, u, rested, hu, hrounds⟩ := ih (h.measureRound ht).recorded
      refine ⟨t :: ts, u, rested, ?_, .changed ht hrounds⟩
      rw [settleHeights, ht]
      exact hu

/-- After every round the heights are on record, and nothing else was touched. -/
theorem Rounds.corrects (h : Rounds m nodes k s ts u rested) (hs : s.IsRecorded nodes) :
    s.Corrects nodes u ∧ ∀ t ∈ ts, s.Corrects nodes t := by
  induction h with
  | spent s => exact ⟨hs.corrects_self, fun _ ht => absurd ht List.not_mem_nil⟩
  | calm ht =>
    have hround := hs.measureRound ht
    exact ⟨hround, List.forall_mem_singleton.mpr hround⟩
  | changed ht _ ih =>
    have hround := hs.measureRound ht
    obtain ⟨hlast, hrest⟩ := ih hround.recorded
    exact ⟨hround.trans hlast,
      List.forall_mem_cons.mpr ⟨hround, fun t ht => hround.trans (hrest t ht)⟩⟩

/-- Fewer rounds than allowed are made only if the last one found nothing to change. -/
theorem Rounds.rested_of_lt (h : Rounds m nodes k s ts u rested) (hlt : ts.length < k) :
    rested = true := by
  induction h with
  | spent s => exact absurd hlt (Nat.lt_irrefl 0)
  | calm ht => rfl
  | changed ht _ ih => exact ih (Nat.lt_of_succ_lt_succ hlt)

/-- At rest every text fits at the values that are found when it is all solved once more. -/
theorem Rounds.fits (h : Rounds m nodes k s ts u true) :
    ∀ n ∈ nodes, n.FitsText m u.board.solve.1 u.heights := by
  generalize hrested : true = rested at h
  induction h with
  | spent s => cases hrested
  | calm ht =>
    obtain ⟨rfl, hfits⟩ := fits_of_measureRound ht
    exact fun n hn => (hfits n hn).congr (ConstraintSystem.solve_solve _)
  | changed ht _ ih => exact ih hrested

end Measured
end MessageCard
