import MessageCard.Layout.Board
import MessageCard.Proofs.Constraint.System
import MessageCard.Proofs.Layout.Sheet

/-!
# Boards do what instructions say

Every handle that a board keeps for an owner names a constraint that is present, and no two owners
keep the same. On such a board every instruction can be carried out, and the constraints in force
afterwards are those of the sheet after the instruction.
-/
namespace MessageCard
namespace Board

variable {σ : Type} {b : Board σ}

/-- The owner for which a handle is kept. -/
def owner? (b : Board σ) (h : Handle) : Option Owner := (b.owned.find? (·.2 = h)).map (·.1)

/-- The constraints present with their owners, oldest first. -/
def sheet (b : Board σ) : Sheet := b.system.present.reverse.map fun p => (b.owner? p.1, p.2)

/-- The constraints in force are those present. -/
theorem constraints_sheet (b : Board σ) :
    b.sheet.constraints.Perm (b.system.present.map (·.2)) := by
  rw [Sheet.constraints, sheet, List.map_map, List.map_reverse]
  exact List.reverse_perm _

theorem mem_handles {o : Owner} {x : Handle} : x ∈ b.handles o ↔ (o, x) ∈ b.owned := by
  unfold handles
  constructor
  · intro hmem
    obtain ⟨p, hp, rfl⟩ := List.mem_map.mp hmem
    obtain ⟨hp, ho⟩ := List.mem_filter.mp hp
    have ho : p.1 = o := by simpa using ho
    exact ho ▸ hp
  · intro hmem
    exact List.mem_map.mpr ⟨(o, x), List.mem_filter.mpr ⟨hmem, by simp⟩, rfl⟩

variable [RelationSolver σ]

/-- The handles kept for owners are present and kept once. -/
structure IsSound (b : Board σ) : Prop where
  system : b.system.IsSound
  holds : ∃ rs, b.system.Holds rs
  live : ∀ p ∈ b.owned, p.2 ∈ b.system.present.map (·.1)
  once : (b.owned.map (·.2)).Nodup

theorem isSound_empty : (empty : Board σ).IsSound :=
  ⟨ConstraintSystem.isSound_empty, ⟨[], ConstraintSystem.holds_empty⟩,
    fun _ h => absurd h List.not_mem_nil, List.nodup_nil⟩

theorem IsSound.owner?_eq_some (h : b.IsSound) {x : Handle} {o : Owner} :
    b.owner? x = some o ↔ (o, x) ∈ b.owned := by
  unfold owner?
  constructor
  · intro hfind
    obtain ⟨p, hp, rfl⟩ := Option.map_eq_some_iff.mp hfind
    have hx : p.2 = x := by simpa using List.find?_some hp
    exact hx ▸ List.mem_of_find?_eq_some hp
  · intro hmem
    cases hfind : b.owned.find? (·.2 = x) with
    | none =>
      have hne := List.find?_eq_none.mp hfind (o, x) hmem
      simp at hne
    | some p =>
      have hx : p.2 = x := by simpa using List.find?_some hfind
      have hp := List.inj_on_of_nodup_map h.once (List.mem_of_find?_eq_some hfind) hmem hx
      rw [hp]
      rfl

theorem IsSound.mem_handles_iff (h : b.IsSound) {o : Owner} {x : Handle} :
    x ∈ b.handles o ↔ b.owner? x = some o := by
  rw [mem_handles, h.owner?_eq_some]

/-- The next handle is not kept for anyone. -/
theorem IsSound.next_not_owned (h : b.IsSound) (o : Owner) :
    (o, ⟨b.system.nextHandle⟩) ∉ b.owned :=
  fun hmem => h.system.next_not_mem (h.live _ hmem)

theorem IsSound.owner?_next (h : b.IsSound) : b.owner? ⟨b.system.nextHandle⟩ = none := by
  cases ho : b.owner? ⟨b.system.nextHandle⟩ with
  | none => rfl
  | some o => exact absurd (h.owner?_eq_some.mp ho) (h.next_not_owned o)

/-! ## Adding -/

theorem IsSound.state (h : b.IsSound) (c : Constraint) : (b.state c).IsSound where
  system := h.system.add c
  holds := by
    obtain ⟨rs, hrs⟩ := h.holds
    obtain ⟨r, -, hr⟩ := hrs.add c
    exact ⟨r :: rs, hr⟩
  live := by
    intro p hp
    have hlive := h.live p hp
    rw [Board.state, ConstraintSystem.add_present, List.map_cons]
    exact List.mem_cons_of_mem _ hlive
  once := h.once

theorem IsSound.sheet_state (h : b.IsSound) (c : Constraint) :
    (b.state c).sheet = b.sheet.edit (.state c) := by
  have howner : (b.state c).owner? = b.owner? := rfl
  rw [Board.sheet, howner, Board.state, ConstraintSystem.add_present, List.reverse_cons,
    List.map_append, List.map_singleton, h.owner?_next]
  rfl

theorem own_eq (o : Owner) (c : Constraint) :
    b.own o c = ⟨(b.system.add c).2, b.owned ++ [(o, ⟨b.system.nextHandle⟩)]⟩ := by
  rw [Board.own, ← ConstraintSystem.add_handle c]

theorem IsSound.own (h : b.IsSound) (o : Owner) (c : Constraint) : (b.own o c).IsSound := by
  rw [own_eq]
  constructor
  · exact h.system.add c
  · obtain ⟨rs, hrs⟩ := h.holds
    obtain ⟨r, -, hr⟩ := hrs.add c
    exact ⟨r :: rs, hr⟩
  · intro p hp
    rw [ConstraintSystem.add_present, List.map_cons]
    rcases List.mem_append.mp hp with hp | hp
    · exact List.mem_cons_of_mem _ (h.live p hp)
    · rw [List.mem_singleton.mp hp]
      exact List.mem_cons_self
  · rw [List.map_append, List.map_singleton]
    refine List.Nodup.append h.once (List.nodup_singleton _) ?_
    intro x hx hnext
    obtain ⟨p, hp, rfl⟩ := List.mem_map.mp hx
    have hp' : p.2 = ⟨b.system.nextHandle⟩ := List.mem_singleton.mp hnext
    exact h.next_not_owned p.1 (hp' ▸ hp)

theorem IsSound.sheet_own (h : b.IsSound) (o : Owner) (c : Constraint) :
    (b.own o c).sheet = b.sheet.edit (.own o c) := by
  have hold : ∀ p ∈ b.system.present, (b.own o c).owner? p.1 = b.owner? p.1 := by
    intro p hp
    have hne : (⟨b.system.nextHandle⟩ : Handle) ≠ p.1 :=
      fun he => h.system.next_not_mem (he ▸ List.mem_map_of_mem hp)
    rw [own_eq, owner?, owner?, List.find?_append]
    simp [hne]
  have hnew : (b.own o c).owner? ⟨b.system.nextHandle⟩ = some o := by
    rw [(h.own o c).owner?_eq_some, own_eq]
    exact List.mem_append_right _ (List.mem_singleton_self _)
  have hpresent : (b.own o c).system.present =
      (⟨b.system.nextHandle⟩, c) :: b.system.present := by
    rw [own_eq, ConstraintSystem.add_present]
  rw [Board.sheet, hpresent, List.reverse_cons, List.map_append, List.map_singleton, hnew]
  have hmap : b.system.present.reverse.map (fun p => ((b.own o c).owner? p.1, p.2)) =
      b.sheet :=
    List.map_congr_left fun p hp => by rw [hold p (List.mem_reverse.mp hp)]
  rw [hmap]
  rfl

/-- Constraints that an owner gets one after another. -/
theorem IsSound.owns (h : b.IsSound) (o : Owner) (cs : List Constraint) :
    (cs.foldl (fun b c => b.own o c) b).IsSound ∧
      (cs.foldl (fun b c => b.own o c) b).sheet = b.sheet ++ cs.map (some o, ·) := by
  induction cs generalizing b with
  | nil => exact ⟨h, by simp⟩
  | cons c cs ih =>
    obtain ⟨hsound, hsheet⟩ := ih (h.own o c)
    refine ⟨hsound, ?_⟩
    rw [List.foldl_cons, hsheet, h.sheet_own o c, List.map_cons]
    simp [Sheet.edit]

/-! ## Replacing -/

theorem IsSound.handles_live (h : b.IsSound) (o : Owner) :
    ∀ x ∈ b.handles o, x ∈ b.system.present.map (·.1) :=
  fun _ hx => h.live _ (mem_handles.mp hx)

theorem IsSound.handles_nodup (h : b.IsSound) (o : Owner) : (b.handles o).Nodup :=
  h.once.sublist (List.filter_sublist.map _)

/-- The constraints of an owner can be dropped, and all others stay. -/
theorem IsSound.exists_disown (h : b.IsSound) (o : Owner) :
    ∃ t, b.disown o = .ok t ∧ t.IsSound ∧ t.sheet = b.sheet.filter (·.1 ≠ some o) ∧
      t.system.values = b.system.values ∧
      ∀ rs, b.system.Holds rs →
        t.system.Holds (rs.filter fun r => (⟨r.1⟩ : Handle) ∉ b.handles o) := by
  obtain ⟨s, hs, hsound, hpresent, -, hvalues, hholds⟩ :=
    ConstraintSystem.exists_removeAll h.system (h.handles_live o) (h.handles_nodup o)
  have htsound : IsSound (⟨s, b.owned.filter (·.1 ≠ o)⟩ : Board σ) := by
    constructor
    · exact hsound
    · obtain ⟨rs, hrs⟩ := h.holds
      exact ⟨_, hholds rs hrs⟩
    · intro p hp
      obtain ⟨hp, hpo⟩ := List.mem_filter.mp hp
      have hpo : p.1 ≠ o := by simpa using hpo
      obtain ⟨q, hq, hqp⟩ := List.mem_map.mp (h.live p hp)
      rw [hpresent]
      refine List.mem_map.mpr ⟨q, List.mem_filter.mpr ⟨hq, ?_⟩, hqp⟩
      have hkept : p.2 ∉ b.handles o := by
        intro hmem
        exact hpo (congrArg Prod.fst
          (List.inj_on_of_nodup_map h.once hp (mem_handles.mp hmem) rfl))
      simpa [hqp] using hkept
    · exact h.once.sublist (List.filter_sublist.map _)
  have howner : ∀ p ∈ s.present,
      owner? ⟨s, b.owned.filter (·.1 ≠ o)⟩ p.1 = b.owner? p.1 := by
    intro p hp
    have hkept : p.1 ∉ b.handles o := by
      rw [hpresent, List.mem_filter] at hp
      simpa using hp.2
    refine Option.ext fun o' => ?_
    rw [htsound.owner?_eq_some, h.owner?_eq_some, List.mem_filter, and_iff_left_iff_imp]
    rintro hmem
    have hne : o' ≠ o := fun he => hkept (mem_handles.mpr (he ▸ hmem))
    simpa using hne
  refine ⟨⟨s, b.owned.filter (·.1 ≠ o)⟩, ?_, htsound, ?_, hvalues, hholds⟩
  · rw [disown, hs]
    rfl
  · have hsheet : sheet ⟨s, b.owned.filter (·.1 ≠ o)⟩ =
        s.present.reverse.map fun p => (b.owner? p.1, p.2) :=
      List.map_congr_left fun p hp => by rw [howner p (List.mem_reverse.mp hp)]
    rw [hsheet, hpresent, sheet, List.filter_map, ← List.filter_reverse]
    congr 1
    refine List.filter_congr fun p _ => ?_
    simp [h.mem_handles_iff]

/-! ## Instructions -/

/-- An instruction can be carried out, and does to the sheet what it says. -/
theorem IsSound.exists_follow (h : b.IsSound) (i : Instruction) :
    ∃ t, b.follow i = .ok t ∧ t.IsSound ∧ t.sheet = b.sheet.edit i := by
  cases i with
  | state c => exact ⟨b.state c, rfl, h.state c, h.sheet_state c⟩
  | own o c => exact ⟨b.own o c, rfl, h.own o c, h.sheet_own o c⟩
  | replace o cs =>
    obtain ⟨d, hd, hdsound, hdsheet, -⟩ := h.exists_disown o
    obtain ⟨hsound, hsheet⟩ := hdsound.owns o cs
    refine ⟨_, ?_, hsound, ?_⟩
    · rw [follow, hd]
      rfl
    · rw [hsheet, hdsheet]
      rfl

/-- What an instruction that was carried out did. -/
theorem IsSound.of_follow {t : Board σ} {i : Instruction} (h : b.IsSound)
    (ht : b.follow i = .ok t) : t.IsSound ∧ t.sheet = b.sheet.edit i := by
  obtain ⟨u, hu, hsound, hsheet⟩ := h.exists_follow i
  cases hu.symm.trans ht
  exact ⟨hsound, hsheet⟩

/-- Instructions can be carried out one after another. -/
theorem IsSound.exists_run (h : b.IsSound) (is : List Instruction) :
    ∃ t, b.run is = .ok t ∧ t.IsSound ∧ t.sheet = b.sheet.editAll is := by
  induction is generalizing b with
  | nil => exact ⟨b, rfl, h, rfl⟩
  | cons i is ih =>
    obtain ⟨d, hd, hdsound, hdsheet⟩ := h.exists_follow i
    obtain ⟨t, ht, htsound, htsheet⟩ := ih hdsound
    refine ⟨t, ?_, htsound, ?_⟩
    · rw [run, List.foldlM_cons, hd]
      exact ht
    · rw [htsheet, hdsheet]
      rfl

theorem IsSound.solve (h : b.IsSound) : b.solve.2.IsSound := by
  obtain ⟨rs, hrs⟩ := h.holds
  exact ⟨⟨h.system.fresh, h.system.distinct⟩, ⟨rs, hrs.holding, hrs.stands⟩, h.live, h.once⟩

/-! ## The same constraints once more -/

/-- Constraints that may be broken are held at their own prices once an owner has them. -/
theorem holds_owns (o : Owner) {cs : List Constraint} (hcs : ∀ c ∈ cs, c.priority ≠ .required)
    {rs : List PricedRelation} (h : b.system.Holds rs) :
    ∃ ts, (cs.foldl (fun b c => b.own o c) b).system.Holds ts ∧
      (ts.map (·.2)).Perm (cs.map Constraint.priced ++ rs.map (·.2)) := by
  induction cs generalizing b rs with
  | nil => exact ⟨rs, h, .refl _⟩
  | cons c cs ih =>
    obtain ⟨hc, hcs⟩ := List.forall_mem_cons.mp hcs
    obtain ⟨r, hr, hholds⟩ := h.add_breakable hc
    have hown : (b.own o c).system.Holds (r :: rs) := hholds
    obtain ⟨ts, hts, hperm⟩ := ih hcs hown
    refine ⟨ts, hts, hperm.trans ?_⟩
    rw [List.map_cons, hr]
    exact List.perm_middle

theorem values_owns (o : Owner) (cs : List Constraint) :
    (cs.foldl (fun b c => b.own o c) b).system.values = b.system.values := by
  induction cs generalizing b with
  | nil => rfl
  | cons c cs ih =>
    rw [List.foldl_cons, ih, own_eq, ConstraintSystem.add_values]

/-- The constraints of an owner are those under its handles. -/
theorem IsSound.ofOwner_perm (h : b.IsSound) (o : Owner) :
    (b.sheet.ofOwner o).Perm ((b.system.present.filter (·.1 ∈ b.handles o)).map (·.2)) := by
  have howner : b.sheet.ofOwner o =
      ((b.system.present.filter (·.1 ∈ b.handles o)).map (·.2)).reverse := by
    rw [Sheet.ofOwner, sheet, List.filter_map, List.map_map, ← List.map_reverse,
      ← List.filter_reverse]
    congr 1
    refine List.filter_congr fun p _ => ?_
    simp [h.mem_handles_iff]
  rw [howner]
  exact List.reverse_perm _

/-- The relations held for an owner whose constraints may all be broken. -/
theorem IsSound.held_perm (h : b.IsSound) {o : Owner}
    (hcs : ∀ c ∈ b.sheet.ofOwner o, c.priority ≠ .required) {rs : List PricedRelation}
    (hrs : b.system.Holds rs) :
    ((rs.filter fun r => (⟨r.1⟩ : Handle) ∈ b.handles o).map (·.2)).Perm
      ((b.sheet.ofOwner o).map Constraint.priced) := by
  have hperm := h.ofOwner_perm o
  have hstands := ConstraintSystem.stands_filter hrs.stands
    (fun x => decide (x ∈ b.handles o)) (fun n => decide ((⟨n⟩ : Handle) ∈ b.handles o))
    fun _ => rfl
  have hpriced : ∀ p ∈ b.system.present.filter (·.1 ∈ b.handles o), p.2.priority ≠ .required :=
    fun p hp => hcs p.2 (hperm.mem_iff.mpr (List.mem_map_of_mem hp))
  refine List.Perm.trans ?_ (hperm.map Constraint.priced).symm
  generalize b.system.present.filter (·.1 ∈ b.handles o) = ps,
    rs.filter (fun r => (⟨r.1⟩ : Handle) ∈ b.handles o) = ts at hstands hpriced ⊢
  induction hstands with
  | nil => exact .nil
  | cons hpr _ ih =>
    obtain ⟨hp, hps⟩ := List.forall_mem_cons.mp hpriced
    rw [List.map_cons, List.map_cons, List.map_cons, hpr.eq_of_breakable hp]
    exact (ih hps).cons _

/-- Putting its own constraints in the place of an owner's changes their order alone. -/
theorem IsSound.reorders_follow {t : Board σ} {o : Owner} (h : b.IsSound)
    (hcs : ∀ c ∈ b.sheet.ofOwner o, c.priority ≠ .required)
    (ht : b.follow (.replace o (b.sheet.ofOwner o)) = .ok t) : b.system.Reorders t.system := by
  have hsheet := (h.of_follow ht).2
  obtain ⟨d, hd, -, -, hvalues, hkeeps⟩ := h.exists_disown o
  rw [follow, hd] at ht
  cases ht
  constructor
  · refine (constraints_sheet _).symm.trans (List.Perm.trans ?_ (constraints_sheet b))
    exact (List.Perm.of_eq (congrArg _ hsheet)).trans (b.sheet.constraints_edit_ofOwner o)
  · intro rs hrs
    obtain ⟨ts, hts, hperm⟩ := holds_owns o hcs (hkeeps rs hrs)
    have hsplit := (List.filter_append_perm
      (fun r : PricedRelation => decide ((⟨r.1⟩ : Handle) ∈ b.handles o)) rs).map (·.2)
    rw [List.map_append] at hsplit
    refine ⟨ts, hts, hperm.trans (((h.held_perm hcs hrs).symm.append_right _).trans ?_)⟩
    simpa using hsplit
  · exact (values_owns o _).trans hvalues

end Board
end MessageCard
