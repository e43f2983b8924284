import MessageCard.Layout.Settling
import MessageCard.Proofs.Layout.Board

/-!
# Settling succeeds and touches only texts

Rounds of measuring replace heights of texts and nothing else, so they can be carried out on every
sound board, and what belongs to other owners is afterwards what it was. The tree is drawn from the
values that the board remembers.
-/
namespace MessageCard

variable {σ : Type} [RelationSolver σ]

/-- A board that came from another one by measuring the texts of some nodes. -/
structure Board.IsRemeasured (nodes : List OutlineNode) (b t : Board σ) : Prop where
  sound : t.IsSound
  ofOwner : ∀ o, (∀ k, o ≠ .text k) → t.sheet.ofOwner o = b.sheet.ofOwner o
  /-- What is new are heights of texts that are shown. -/
  added : ∀ c ∈ t.sheet.constraints, c ∈ b.sheet.constraints ∨
    ∃ n ∈ nodes, n.hidden = false ∧ ∃ height, c = Rules.textHeight n.id n.view height

theorem Board.IsRemeasured.refl (nodes : List OutlineNode) {b : Board σ} (h : b.IsSound) :
    b.IsRemeasured nodes b :=
  ⟨h, fun _ _ => rfl, fun _ hc => .inl hc⟩

theorem Board.IsRemeasured.trans {nodes : List OutlineNode} {a b c : Board σ}
    (h : a.IsRemeasured nodes b) (h' : b.IsRemeasured nodes c) : a.IsRemeasured nodes c where
  sound := h'.sound
  ofOwner o ho := (h'.ofOwner o ho).trans (h.ofOwner o ho)
  added x hx := (h'.added x hx).elim (h.added x) .inr

theorem Board.IsRemeasured.mono {nodes more : List OutlineNode} {a b : Board σ}
    (h : a.IsRemeasured nodes b) (hnodes : nodes ⊆ more) : a.IsRemeasured more b where
  sound := h.sound
  ofOwner := h.ofOwner
  added c hc := (h.added c hc).imp_right fun ⟨n, hn, hshown⟩ => ⟨n, hnodes hn, hshown⟩

theorem Board.IsRemeasured.solve {nodes : List OutlineNode} {a b : Board σ}
    (h : a.IsRemeasured nodes b) : a.IsRemeasured nodes b.solve.2 :=
  ⟨h.sound.solve, h.ofOwner, h.added⟩

theorem OutlineNode.shown_of_shownText? {n : OutlineNode} {t : TextSlot}
    (h : n.shownText? = some t) : n.hidden = false := by
  cases hhidden : n.hidden with
  | false => rfl
  | true => simp [shownText?, hhidden] at h

/-- The text of a node, if it is shown and of flexible height, is as high as it was expected to be,
at the width found for it. -/
def OutlineNode.FitsText (m : TextMeasurer) (solution : Solution) (heights : Table Nat Binary64)
    (n : OutlineNode) : Prop :=
  ∀ t before, n.shownText? = some t → heights.find? n.id = some before →
    ¬heightTolerance <
      ((m.measure t.font (wrapWidth solution n) t.maxLines t.text.toList).height - before).abs

variable (m : TextMeasurer) (solution : Solution)

/-- One text can always be measured again. -/
theorem exists_remeasure {s : Measured σ × Bool} (h : s.1.board.IsSound) (n : OutlineNode) :
    ∃ t, remeasure m solution s n = .ok t ∧ s.1.board.IsRemeasured [n] t.1.board := by
  unfold remeasure
  split
  case h_1 t before htext _ =>
    dsimp only
    split
    · obtain ⟨board, hboard, hsound, hsheet⟩ := h.exists_follow (.replace (.text n.id)
        [Rules.textHeight n.id n.view
          (m.measure t.font (wrapWidth solution n) t.maxLines t.text.toList).height])
      rw [hboard]
      refine ⟨_, rfl, hsound, fun o ho => ?_, fun c hc => ?_⟩
      · rw [hsheet]
        exact Sheet.ofOwner_replace_of_ne _ _ (ho n.id)
      · rw [hsheet] at hc
        refine (Sheet.mem_constraints_edit hc).imp_right fun hadded => ?_
        exact ⟨n, List.mem_singleton_self n, n.shown_of_shownText? htext, _,
          List.mem_singleton.mp hadded⟩
    · exact ⟨s, rfl, .refl _ h⟩
  case h_2 => exact ⟨s, rfl, .refl _ h⟩

/-- A text that fits is left alone. -/
theorem remeasure_of_fits {s : Measured σ × Bool} {n : OutlineNode}
    (h : n.FitsText m solution s.1.heights) : remeasure m solution s n = .ok s := by
  unfold remeasure
  split
  case h_1 t before ht hbefore =>
    exact if_neg (h t before ht hbefore)
  case h_2 => rfl

theorem exists_foldlM_remeasure (nodes : List OutlineNode) {s : Measured σ × Bool}
    (h : s.1.board.IsSound) :
    ∃ t, nodes.foldlM (remeasure m solution) s = .ok t ∧
      s.1.board.IsRemeasured nodes t.1.board := by
  induction nodes generalizing s with
  | nil => exact ⟨s, rfl, .refl _ h⟩
  | cons n nodes ih =>
    obtain ⟨t, ht, hst⟩ := exists_remeasure m solution h n
    obtain ⟨u, hu, htu⟩ := ih hst.sound
    refine ⟨u, ?_, (hst.mono (by simp)).trans (htu.mono (List.subset_cons_self n nodes))⟩
    rw [List.foldlM_cons, ht]
    exact hu

/-- A round can always be made. -/
theorem exists_measureRound (nodes : List OutlineNode) {s : Measured σ} (h : s.board.IsSound) :
    ∃ t, measureRound m nodes s = .ok t ∧ s.board.IsRemeasured nodes t.1.board := by
  obtain ⟨t, ht, hst⟩ := exists_foldlM_remeasure m s.board.solve.1 nodes
    (s := ({ s with board := s.board.solve.2 }, false)) h.solve
  exact ⟨t, ht, (Board.IsRemeasured.refl nodes h).solve.trans hst⟩

/-- A round in which every text fits only solves. -/
theorem measureRound_of_fits {nodes : List OutlineNode} {s : Measured σ}
    (h : ∀ n ∈ nodes, n.FitsText m s.board.solve.1 s.heights) :
    measureRound m nodes s = .ok ({ s with board := s.board.solve.2 }, false) := by
  unfold measureRound
  dsimp only
  generalize hstart : (({ s with board := s.board.solve.2 }, false) : Measured σ × Bool) = start
  have hheights : start.1.heights = s.heights := by rw [← hstart]
  clear hstart
  induction nodes with
  | nil => rfl
  | cons n nodes ih =>
    have hfits : n.FitsText m s.board.solve.1 start.1.heights :=
      hheights ▸ h n List.mem_cons_self
    rw [List.foldlM_cons, remeasure_of_fits m _ hfits]
    exact ih fun k hk => h k (List.mem_cons_of_mem _ hk)

/-- Heights settle, one way or the other. -/
theorem exists_settleHeights (nodes : List OutlineNode) (rounds : Nat) {s : Measured σ}
    (h : s.board.IsSound) :
    ∃ t, settleHeights m nodes rounds s = .ok t ∧ s.board.IsRemeasured nodes t.board := by
  induction rounds generalizing s with
  | zero => exact ⟨s, rfl, .refl nodes h⟩
  | succ rounds ih =>
    obtain ⟨⟨next, changed⟩, hnext, hsn⟩ := exists_measureRound m nodes h
    cases changed with
    | true =>
      obtain ⟨t, ht, hnt⟩ := ih hsn.sound
      refine ⟨t, ?_, hsn.trans hnt⟩
      rw [settleHeights, hnext]
      exact ht
    | false =>
      refine ⟨next, ?_, hsn⟩
      rw [settleHeights, hnext]
      rfl

/-- Texts fit at solutions with the same values alike. -/
theorem OutlineNode.FitsText.congr {m : TextMeasurer} {s t : Solution} {heights : Table Nat Binary64}
    {n : OutlineNode} (h : n.FitsText m s heights) (hst : ∀ i, t.unknown i = s.unknown i) :
    n.FitsText m t heights := by
  have hwidth : wrapWidth t n = wrapWidth s n := by
    simp only [wrapWidth, Solution.length, Solution.get, hst]
  intro text before htext hbefore
  rw [hwidth]
  exact h text before htext hbefore

/-- Where every text fits, the values are those found first. -/
theorem settleHeights_of_fits {nodes : List OutlineNode} (rounds : Nat) {s : Measured σ}
    (h : ∀ n ∈ nodes, n.FitsText m s.board.solve.1 s.heights) :
    ∃ t, settleHeights m nodes rounds s = .ok t ∧
      ∀ i, t.board.solve.1.unknown i = s.board.solve.1.unknown i := by
  cases rounds with
  | zero => exact ⟨s, rfl, fun _ => rfl⟩
  | succ rounds =>
    refine ⟨{ s with board := s.board.solve.2 }, ?_, s.board.system.solve_solve⟩
    rw [settleHeights, measureRound_of_fits m h]
    rfl

/-- A layout that was settled: what it is made of, how its tree was drawn, and what it keeps where
no text has to be measured again. -/
structure LiveLayout.IsSettled (m : TextMeasurer) (strip? : String → Option StripState)
    (root : OutlineNode) (images : Table Nat LoadedImage) (start : Measured σ) (l : LiveLayout σ) :
    Prop where
  root_eq : l.root = root
  images_eq : l.images = images
  remeasured : start.board.IsRemeasured root.nodes l.measured.board
  solved : l.measured.board.system.IsSolved
  tree : l.tree = Drawing.tree ⟨⟨l.measured.board.system.values⟩, m, images, strip?⟩ root
  undisturbed : (∀ n ∈ root.nodes, n.FitsText m start.board.solve.1 start.heights) →
    ∀ i, (⟨l.measured.board.system.values⟩ : Solution).unknown i = start.board.solve.1.unknown i
  measured : ∃ rounds last, settleHeights m root.nodes rounds start = .ok last ∧
    l.measured = { last with board := last.board.solve.2 }

/-- Every sound board settles. -/
theorem exists_settle (s : LayoutSettings) (strip? : String → Option StripState)
    (root : OutlineNode) (images : Table Nat LoadedImage) {start : Measured σ}
    (h : start.board.IsSound) :
    ∃ l, settle s strip? root images start = .ok l ∧
      l.IsSettled s.measurer strip? root images start := by
  obtain ⟨t, ht, hst⟩ := exists_settleHeights s.measurer root.nodes s.textPasses h
  refine ⟨⟨{ t with board := t.board.solve.2 }, root, images,
    Drawing.tree ⟨t.board.solve.1, s.measurer, images, strip?⟩ root⟩, ?_, ?_⟩
  · rw [settle, ht]
    rfl
  · refine ⟨rfl, rfl, hst.solve, t.board.system.isSolved_solve, rfl, fun hfits => ?_,
      s.textPasses, t, ht, rfl⟩
    obtain ⟨u, hu, hvalues⟩ := settleHeights_of_fits s.measurer s.textPasses hfits
    cases hu.symm.trans ht
    exact hvalues

end MessageCard
