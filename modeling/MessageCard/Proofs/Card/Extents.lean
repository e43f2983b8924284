import MessageCard.Proofs.Binary64.Order
import MessageCard.Proofs.Card.Layouts
import MessageCard.Proofs.Layout.Containment
import MessageCard.Proofs.Template.Reading

/-!
# The extent of layouts

A constraint that was stated, and not given to an owner, stays in force as long as the layout lives:
texts that are measured again and bitmaps that arrive replace constraints of owners only. Among what
is stated first is that the frame of the body has no negative side. So every layout that is drawn
from values which satisfy its required constraints has an extent that is not negative, on a card and
on all pages of its carousels.
-/
namespace MessageCard

/-! ## What settling keeps -/

section Settling

variable {σ : Type} [RelationSolver σ]

/-- A property of boards that every instruction keeps, and solving too. -/
structure Board.Endures (P : Board σ → Prop) : Prop where
  follow : ∀ {b t : Board σ} {i : Instruction}, P b → b.follow i = .ok t → P t
  solve : ∀ {b : Board σ}, P b → P b.solve.2

namespace Board.Endures

variable {P : Board σ → Prop} {m : TextMeasurer} {solution : Solution}

theorem remeasure (hP : Endures P) {s u : Measured σ × Bool} {n : OutlineNode}
    (h : P s.1.board) (hu : remeasure m solution s n = .ok u) : P u.1.board := by
  unfold MessageCard.remeasure at hu
  split at hu
  case h_1 text before _ _ =>
    dsimp only at hu
    split at hu
    case isTrue =>
      obtain ⟨board, hboard, hok⟩ := bind_eq_ok_iff.mp hu
      cases hok
      exact hP.follow h hboard
    case isFalse =>
      cases hu
      exact h
  case h_2 =>
    cases hu
    exact h

theorem foldlM_remeasure (hP : Endures P) {nodes : List OutlineNode} {s u : Measured σ × Bool}
    (h : P s.1.board) (hu : nodes.foldlM (MessageCard.remeasure m solution) s = .ok u) :
    P u.1.board := by
  induction nodes generalizing s with
  | nil =>
    cases hu
    exact h
  | cons n nodes ih =>
    rw [List.foldlM_cons] at hu
    obtain ⟨r, hr, hu⟩ := bind_eq_ok_iff.mp hu
    exact ih (hP.remeasure h hr) hu

/-- All rounds of measuring keep what endures. -/
theorem settleHeights (hP : Endures P) {nodes : List OutlineNode} {rounds : Nat}
    {s u : Measured σ} (h : P s.board) (hu : settleHeights m nodes rounds s = .ok u) :
    P u.board := by
  induction rounds generalizing s with
  | zero =>
    cases hu
    exact h
  | succ rounds ih =>
    rw [MessageCard.settleHeights] at hu
    obtain ⟨⟨next, changed⟩, hnext, hu⟩ := bind_eq_ok_iff.mp hu
    have hround : P next.board :=
      hP.foldlM_remeasure (s := ({ s with board := s.board.solve.2 }, false)) (hP.solve h) hnext
    cases changed with
    | true => exact ih hround hu
    | false =>
      cases hu
      exact hround

/-- A layout has what endures if it was settled from a board that had it. -/
theorem of_settled (hP : Endures P) {strip? : String → Option StripState} {root : OutlineNode}
    {images : Table Nat LoadedImage} {start : Measured σ} {l : LiveLayout σ} (h : P start.board)
    (hl : l.IsSettled m strip? root images start) : P l.measured.board := by
  obtain ⟨rounds, last, hlast, hmeasured⟩ := hl.measured
  rw [hmeasured]
  exact hP.solve (hP.settleHeights h hlast)

end Board.Endures

/-! ## What is stated stays -/

/-- An instruction leaves in force what belongs to no owner. -/
theorem Sheet.mem_edit_of_none {s : Sheet} {c : Constraint} (h : (none, c) ∈ s) (i : Instruction) :
    (none, c) ∈ s.edit i := by
  cases i with
  | state d => exact List.mem_append_left _ h
  | own o d => exact List.mem_append_left _ h
  | replace o cs => exact List.mem_append_left _ (List.mem_filter.mpr ⟨h, by simp⟩)

theorem Sheet.mem_editAll_of_none {s : Sheet} {c : Constraint} (h : (none, c) ∈ s)
    (is : List Instruction) : (none, c) ∈ s.editAll is := by
  induction is generalizing s with
  | nil => exact h
  | cons i is ih => exact ih (Sheet.mem_edit_of_none h i)

theorem Sheet.mem_editAll_of_state {is : List Instruction} {c : Constraint}
    (h : .state c ∈ is) (s : Sheet) : (none, c) ∈ s.editAll is := by
  induction is generalizing s with
  | nil => simp at h
  | cons i is ih =>
    rcases List.mem_cons.mp h with rfl | h
    · refine Sheet.mem_editAll_of_none ?_ is
      exact List.mem_append_right _ (List.mem_singleton_self _)
    · exact ih h _

/-- A sound board on which a constraint is in force that belongs to no owner. -/
structure Board.States (c : Constraint) (b : Board σ) : Prop where
  sound : b.IsSound
  mem : (none, c) ∈ b.sheet

theorem Board.endures_states (c : Constraint) : Board.Endures (Board.States (σ := σ) c) where
  follow h ht := by
    obtain ⟨hsound, hsheet⟩ := h.sound.of_follow ht
    exact ⟨hsound, hsheet ▸ Sheet.mem_edit_of_none h.mem _⟩
  solve h := ⟨h.sound.solve, h.mem⟩

end Settling

/-! ## The frame of the body -/

variable {σ : Type} [RelationSolver σ]

/-- A side of a node's outer frame is not negative. -/
def OutlineNode.sideBound (n : OutlineNode) (a : Axis) : Constraint :=
  .notBelow ((Frame.outer n.id).at a.size) 0 .required

theorem sideBound_mem_ofCard (sizes : ImageSizes) (scale : Binary64) {root : OutlineNode}
    (hshown : root.hidden = false) (a : Axis) :
    .state (root.sideBound a) ∈ Rules.ofCard sizes scale root := by
  have hframes : .state (root.sideBound a) ∈ Rules.frames root.id root.view := by
    cases a <;> simp [OutlineNode.sideBound, Rules.frames, Rules.lengths]
  rw [Rules.ofCard, Rules.ofNode_of_shown hshown]
  exact List.mem_append_right _ (List.mem_append_left _ (List.mem_append_left _ hframes))

/-- A layout whose root is shown, with sides that are required not to be negative. -/
structure LiveLayout.BoundsRoot (l : LiveLayout σ) : Prop where
  shown : l.root.hidden = false
  states : ∀ a, l.measured.board.States (l.root.sideBound a)

/-- Layouts bound their root from the first on, and stay so. -/
theorem Card.lasts_boundsRoot : Card.Lasts (LiveLayout.BoundsRoot (σ := σ)) where
  rendered {s sizes identity items cs m strip? images board l} hsound hsheet hl := by
    have hshown : (bodyOutline s sizes identity items cs).hidden = false := rfl
    rw [← hl.root_eq] at hshown hsheet
    refine ⟨hshown, fun a => (Board.endures_states _).of_settled ⟨hsound, ?_⟩ hl⟩
    rw [hsheet]
    exact Sheet.mem_editAll_of_state (sideBound_mem_ofCard sizes s.displayScale hshown a) []
  scrolled hl _ _ := ⟨hl.shown, hl.states⟩
  resettled _ hl hboard ht := by
    refine ⟨ht.root_eq ▸ hl.shown, fun a => (Board.endures_states _).of_settled ?_ ht⟩
    rw [ht.root_eq]
    obtain rfl | ⟨o, cs, -, hfollow⟩ := hboard
    · exact hl.states a
    · exact (Board.endures_states _).follow (hl.states a) hfollow

/-! ## Extents -/

namespace Binary64

theorem round_nonneg_of_nonneg {x : Rat} (h : 0 ≤ x) : 0 ≤ (round x).value :=
  round_le_round le_rfl h

theorem nearestInt_nonneg {a : Binary64} (h : 0 ≤ a.value) : 0 ≤ a.nearestInt :=
  mul_nonneg (Int.sign_nonneg_iff.mpr (Rat.num_nonneg.mpr h)) (Int.natCast_nonneg _)

/-- A number that is not negative is not below zero after it is kept to thousandths. -/
theorem toThousandths_nonneg {a : Binary64} (h : 0 ≤ a.value) : 0 ≤ a.toThousandths.value := by
  have hthousand : 0 ≤ (1000 : Binary64).value := by decide +kernel
  have hscaled : 0 ≤ (a * 1000).value := round_nonneg_of_nonneg (mul_nonneg h hthousand)
  have hwhole : 0 ≤ (((a * 1000).nearestInt : Int) : Binary64).value :=
    round_nonneg_of_nonneg (Int.cast_nonneg (nearestInt_nonneg hscaled))
  exact round_nonneg_of_nonneg (div_nonneg hwhole hthousand)

end Binary64

/-- The values of the unknowns that a layout was drawn from. -/
def LiveLayout.values (l : LiveLayout σ) : Linear.Assignment
  | .unknown i => (⟨l.measured.board.system.values⟩ : Solution).unknown i
  | _ => 0

/-- The values that a layout was drawn from satisfy the required constraints in force. -/
def LiveLayout.IsSatisfied (l : LiveLayout σ) : Prop :=
  RequiredHold l.values l.measured.board.sheet.constraints

/-- The extent of a layout is that of its root's frame. -/
theorem Card.IsLaidOut.extent_eq {c : Card σ} {l : LiveLayout σ} (h : c.IsLaidOut l)
    (hshown : l.root.hidden = false) :
    let side (a : Axis) := (⟨l.measured.board.system.values⟩ : Solution).length
      (Frame.outer l.root.id) a.size
    l.tree.width = (side .horizontal).toThousandths ∧
      l.tree.height = (side .vertical).toThousandths := by
  have hplacements := h.placements c.settings.measurer c.strip?
  simp only [LayoutOf.placements, Prod.mk.injEq] at hplacements
  obtain ⟨hwidth, hheight, -⟩ := hplacements
  simp only [Drawing.tree, Drawing.frame_node, Drawing.frames, hshown, Bool.false_eq_true,
    if_false] at hwidth hheight
  exact ⟨hwidth, hheight⟩

/-- A layout drawn from values that satisfy its required constraints has no negative extent. -/
theorem Card.IsLaidOut.extent_nonneg {c : Card σ} {l : LiveLayout σ} (h : c.IsLaidOut l)
    (hbounds : l.BoundsRoot) (hvalues : l.IsSatisfied) :
    0 ≤ l.tree.width.value ∧ 0 ≤ l.tree.height.value := by
  have hside : ∀ a : Axis, 0 ≤ ((Frame.outer l.root.id).at a.size).eval l.values := by
    intro a
    have hmem : l.root.sideBound a ∈ l.measured.board.sheet.constraints :=
      List.mem_map_of_mem (f := (·.2)) (hbounds.states a).mem
    exact (holds_notBelow ..).mp (hvalues _ hmem rfl)
  obtain ⟨hwidth, hheight⟩ := h.extent_eq hbounds.shown
  rw [hwidth, hheight]
  exact ⟨Binary64.toThousandths_nonneg (Binary64.round_nonneg_of_nonneg (hside .horizontal)),
    Binary64.toThousandths_nonneg (Binary64.round_nonneg_of_nonneg (hside .vertical))⟩

/-- On every card that comes about, and on every page along the way, a layout that was drawn from
values which satisfy its required constraints has no negative extent. -/
theorem Card.Reachable.extent_nonneg {c d : Card σ} (hc : c.Reachable) {way : List (Nat × Nat)}
    (hd : c.cardAt? way = some d) {l : LiveLayout σ} (hl : d.live = some l)
    (hvalues : l.IsSatisfied) : 0 ≤ l.tree.width.value ∧ 0 ≤ l.tree.height.value :=
  ((hc.isKept.of_cardAt? hd).isLaidOut hl).extent_nonneg
    (((lasts_boundsRoot.showsOnly hc).of_cardAt? hd).live hl) hvalues

end MessageCard
