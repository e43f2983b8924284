import Mathlib.Algebra.Order.BigOperators.Group.List
import MessageCard.Proofs.Binary64.Rounding
import MessageCard.Proofs.Card.Arrangement
import MessageCard.Proofs.Layout.Sheet

/-!
# Frames lie within frames

Whatever values satisfy the required constraints of a body with insets that are not negative, the
content of every node is its outer frame inset by the padding, and children lie within the content
of their parent: along the main axis always, and across it unless their size there is fixed. From
level to level this keeps every node within the width of the card that is reached through rows and
children of flexible width.

Trailing edges that were loosened are not held by a required constraint, so bodies with such edges
are left out.
-/
namespace MessageCard

/-- No edge is inset outwards. -/
structure Insets.IsNonneg (i : Insets) : Prop where
  top : 0 ≤ i.top.value
  bottom : 0 ≤ i.bottom.value
  left : 0 ≤ i.left.value
  right : 0 ≤ i.right.value

instance (i : Insets) : Decidable i.IsNonneg :=
  decidable_of_iff (0 ≤ i.top.value ∧ 0 ≤ i.bottom.value ∧ 0 ≤ i.left.value ∧ 0 ≤ i.right.value)
    ⟨fun ⟨ht, hb, hl, hr⟩ => ⟨ht, hb, hl, hr⟩, fun h => ⟨h.top, h.bottom, h.left, h.right⟩⟩

theorem Insets.isNonneg_none : Insets.none.IsNonneg := by
  decide +kernel

theorem Insets.IsNonneg.lead {i : Insets} (h : i.IsNonneg) (a : Axis) : 0 ≤ (a.lead i).value := by
  cases a with
  | horizontal => exact h.left
  | vertical => exact h.top

theorem Insets.IsNonneg.trail {i : Insets} (h : i.IsNonneg) (a : Axis) :
    0 ≤ (a.trail i).value := by
  cases a with
  | horizontal => exact h.right
  | vertical => exact h.bottom

/-- A frame lies within another one along an axis. -/
def Frame.IsWithin (v : Linear.Assignment) (a : Axis) (f g : Frame) : Prop :=
  (g.at a.start).eval v ≤ (f.at a.start).eval v ∧ (f.at a.stop).eval v ≤ (g.at a.stop).eval v

/-- The content of a node is its outer frame inset by its padding, along both axes. -/
def OutlineNode.IsInset (v : Linear.Assignment) (n : OutlineNode) : Prop :=
  ∀ a : Axis,
    ((Frame.content n.id).at a.start).eval v =
      ((Frame.outer n.id).at a.start).eval v + (a.lead n.view.style.padding).value ∧
    ((Frame.content n.id).at a.stop).eval v =
      ((Frame.outer n.id).at a.stop).eval v - (a.trail n.view.style.padding).value

/-- A node that is reached from the root through rows and children of flexible width only. -/
inductive OutlineNode.IsReachedAcross (root : OutlineNode) : OutlineNode → Prop
  | root : IsReachedAcross root root
  | child {n c : OutlineNode} {s : Stacking} (hn : IsReachedAcross root n) (hc : c ∈ n.children)
      (hshown : c.hidden = false) (hs : n.slot.stacking? = some s)
      (across : s.direction = .row ∨ c.view.width.isFixed = false) : IsReachedAcross root c

section

variable {v : Linear.Assignment} {sizes : ImageSizes} {scale : Binary64} {n c : OutlineNode}
  {s : Stacking}

/-! ## One node -/

/-- Frames hold what they say of each edge and each length. -/
theorem mem_frames {i : Instruction} {d : Constraint} (hi : i ∈ Rules.frames n.id n.view)
    (hd : d ∈ i.added) (hrequired : d.priority = .required)
    (h : RequiredHold v ((Rules.frames n.id n.view).flatMap Instruction.added)) : d.Holds v :=
  h d (List.mem_flatMap.mpr ⟨i, hi, hd⟩) hrequired

theorem isInset_of_frames
    (h : RequiredHold v ((Rules.frames n.id n.view).flatMap Instruction.added)) : n.IsInset v := by
  simp only [Rules.frames, Instruction.added, List.flatMap_cons, List.cons_append, List.nil_append,
    requiredHold_cons] at h
  obtain ⟨hleft, htop, hbottom, hright, -⟩ := h
  intro a
  cases a with
  | horizontal =>
    exact ⟨(holds_equal ..).mp (hleft rfl), (eq_sub_of_add_eq ((holds_equal ..).mp (hright rfl)).symm)⟩
  | vertical =>
    exact ⟨(holds_equal ..).mp (htop rfl), (eq_sub_of_add_eq ((holds_equal ..).mp (hbottom rfl)).symm)⟩

/-- No side of a node's outer frame is negative. -/
theorem size_nonneg_of_frames
    (h : RequiredHold v ((Rules.frames n.id n.view).flatMap Instruction.added)) (a : Axis) :
    0 ≤ n.size v a := by
  have hside : Instruction.state (.notBelow ((Frame.outer n.id).at a.size) 0 .required) ∈
      Rules.frames n.id n.view := by
    cases a <;> simp [Rules.frames, Rules.lengths]
  exact (holds_notBelow ..).mp (mem_frames hside (List.mem_singleton_self _) rfl h)

/-- The content of a node of fixed size is as long as the padding leaves. -/
theorem content_size_of_frames
    (h : RequiredHold v ((Rules.frames n.id n.view).flatMap Instruction.added)) (a : Axis)
    {length : Binary64} (hfixed : a.sizeOf n.view = .fixed length) :
    ((Frame.content n.id).at a.size).eval v =
      (max (length - a.lead n.view.style.padding - a.trail n.view.style.padding) 0).value := by
  have hside : Instruction.state (Rules.contentLength n.id n.view a) ∈
      Rules.frames n.id n.view := by
    cases a <;> simp [Rules.frames, Rules.lengths]
  have hlength : Rules.contentLength n.id n.view a = .fixed ((Frame.content n.id).at a.size)
      (max (length - a.lead n.view.style.padding - a.trail n.view.style.padding) 0).value
      .required := by
    simp only [Rules.contentLength, hfixed]
  rw [hlength] at hside
  exact (holds_fixed ..).mp (mem_frames hside (List.mem_singleton_self _) rfl h)

theorem OutlineNode.IsInset.isWithin (h : n.IsInset v) (hpadding : n.view.style.padding.IsNonneg)
    (a : Axis) : (Frame.content n.id).IsWithin v a (Frame.outer n.id) := by
  obtain ⟨hstart, hstop⟩ := h a
  exact ⟨by linarith [hpadding.lead a], by linarith [hpadding.trail a]⟩

/-! ## One box -/

/-- A link of a chain without negative lengths lies within the content around it. -/
theorem isWithin_of_stacking {parent : Nat} {a : Axis} {alignment : Alignment}
    {ls : List Rules.Link} {overflows : Bool}
    (h : RequiredHold v (Rules.stacking parent a alignment ls overflows))
    (hlead : ∀ l ∈ ls, 0 ≤ l.lead.value) (htrail : ∀ l ∈ ls, 0 ≤ l.trail.value)
    (hsize : ∀ l ∈ ls, 0 ≤ l.size v a) {l : Rules.Link} (hl : l ∈ ls) :
    (Frame.outer l.node).IsWithin v a (Frame.content parent) := by
  obtain ⟨-, -, hleading, htrailing, -, -, -⟩ := Rules.requiredHold_stacking h
  have hsum : ∀ ms : List Rules.Link, ms ⊆ ls → 0 ≤ (ms.map (Rules.Link.extent v a)).sum := by
    intro ms hms
    refine List.sum_nonneg fun x hx => ?_
    obtain ⟨m, hm, rfl⟩ := List.mem_map.mp hx
    have hm := hms hm
    exact add_nonneg (add_nonneg (hlead m hm) (hsize m hm)) (htrail m hm)
  obtain ⟨earlier, later, rfl⟩ := List.append_of_mem hl
  have hstart := Rules.start_of_stacking h (k := earlier.length) (l := l) (by simp)
  have hcontent := Rules.content_size_of_stacking h
  have hearlier := hsum earlier (List.subset_append_left _ _)
  have hlater := hsum later fun m hm => List.mem_append_right _ (List.mem_cons_of_mem _ hm)
  rw [List.take_left] at hstart
  simp only [List.map_append, List.map_cons, List.sum_append, List.sum_cons] at hcontent
  have hextent : l.extent v a = l.lead.value + ((Frame.outer l.node).at a.size).eval v +
      l.trail.value := rfl
  refine ⟨?_, ?_⟩
  · linarith [hlead l hl]
  · rw [eval_stop, eval_stop]
    linarith [htrail l hl]

/-- A child of flexible size across the axis lies within the content of its parent there. -/
theorem isWithin_of_crossing {parent : Nat} {a : Axis} {alignment : Alignment}
    (h : RequiredHold v (Rules.crossing parent c.id c.view a alignment))
    (hmargin : c.view.style.margin.IsNonneg) (hflexible : (a.sizeOf c.view).isFixed = false) :
    (Frame.outer c.id).IsWithin v a (Frame.content parent) := by
  have hbounds : ((Frame.content parent).at a.start).eval v + (a.lead c.view.style.margin).value ≤
        ((Frame.outer c.id).at a.start).eval v ∧
      ((Frame.outer c.id).at a.stop).eval v ≤
        ((Frame.content parent).at a.stop).eval v + -(a.trail c.view.style.margin).value := by
    cases hfill : (a.sizeOf c.view).isFill with
    | true =>
      simp only [Rules.crossing, hfill, if_true, requiredHold_cons] at h
      obtain ⟨hstart, hstop, -⟩ := h
      exact ⟨((holds_equal ..).mp (hstart rfl)).ge, ((holds_equal ..).mp (hstop rfl)).le⟩
    | false =>
      simp only [Rules.crossing, hfill, hflexible, Bool.false_eq_true, if_false,
        requiredHold_cons] at h
      obtain ⟨-, hstart, hstop, -⟩ := h
      exact ⟨(holds_atLeast ..).mp (hstart rfl), (holds_atMost ..).mp (hstop rfl)⟩
  exact ⟨by linarith [hbounds.1, hmargin.lead a], by linarith [hbounds.2, hmargin.trail a]⟩

/-! ## Parts of a node's constraints -/

theorem RequiredHold.part {part whole : List Instruction}
    (h : RequiredHold v (whole.flatMap Instruction.added)) (hsub : part ⊆ whole) :
    RequiredHold v (part.flatMap Instruction.added) := by
  refine h.mono fun d hd => ?_
  obtain ⟨i, hi, hd⟩ := List.mem_flatMap.mp hd
  exact List.mem_flatMap.mpr ⟨i, hsub hi, hd⟩

theorem RequiredHold.frames (hshown : n.hidden = false)
    (h : RequiredHold v ((Rules.ofNode sizes scale n).flatMap Instruction.added)) :
    RequiredHold v ((Rules.frames n.id n.view).flatMap Instruction.added) := by
  refine h.part ?_
  rw [Rules.ofNode_of_shown hshown]
  exact fun i hi => List.mem_append_left _ (List.mem_append_left _ hi)

theorem RequiredHold.box (hshown : n.hidden = false) (hs : n.slot.stacking? = some s)
    (h : RequiredHold v ((Rules.ofNode sizes scale n).flatMap Instruction.added)) :
    RequiredHold v ((Rules.ofBox sizes scale n s).flatMap Instruction.added) := by
  refine h.part ?_
  rw [Rules.ofNode_of_shown hshown, hs]
  exact fun i hi => List.mem_append_right _ hi

theorem RequiredHold.stack
    (h : RequiredHold v ((Rules.ofBox sizes scale n s).flatMap Instruction.added)) :
    RequiredHold v (Rules.ofStack n.id s n.children) := by
  refine h.mono fun d hd => List.mem_flatMap.mpr ⟨.state d, ?_, List.mem_singleton_self d⟩
  exact List.mem_append_right _ (List.mem_map_of_mem hd)

theorem RequiredHold.crossing
    (h : RequiredHold v ((Rules.ofBox sizes scale n s).flatMap Instruction.added))
    (hc : c ∈ shown n.children) :
    RequiredHold v (Rules.crossing n.id c.id c.view s.direction.axis.cross
      (s.direction.axis.cross.alignment s.align)) := by
  refine h.mono fun d hd => List.mem_flatMap.mpr ⟨.state d, ?_, List.mem_singleton_self d⟩
  refine List.mem_append_left _ (List.mem_flatMap.mpr ⟨c, hc, ?_⟩)
  exact List.mem_append_right _ (List.mem_append_right _ (List.mem_map_of_mem hd))

end

/-! ## A body -/

section

variable {σ : Type} [RelationSolver σ]

variable {v : Linear.Assignment} {s : LayoutSettings} {sizes : ImageSizes}
  {identity : CardIdentity} {items : List Item} {cs : CarouselCache (Card σ)}

/-- The insets of all nodes are those of the items, or none. -/
theorem isNonneg_of_mem_bodyOutline
    (hinsets : ∀ view ∈ bodyViews items,
      view.style.margin.IsNonneg ∧ view.style.padding.IsNonneg)
    {n : OutlineNode} (hn : n ∈ (Card.bodyOutline s sizes identity items cs).nodes) :
    n.view.style.margin.IsNonneg ∧ n.view.style.padding.IsNonneg := by
  rcases Card.view_mem_of_mem_bodyOutline s sizes identity items cs hn with rfl | hview
  · exact ⟨Insets.isNonneg_none, Insets.isNonneg_none⟩
  · exact hinsets n.view hview

/-- The root of a body lies at the origin, and its content is as wide as the card. -/
theorem root_of_holds {root : OutlineNode} {width : Binary64}
    (hpadding : root.view.style.padding = Insets.none) (hsize : root.view.width = .fixed width)
    (hdouble : width.IsDouble)
    (horigin : (Constraint.fixed ((Frame.outer root.id).at .left) 0 .required).Holds v)
    (hframes : RequiredHold v ((Rules.frames root.id root.view).flatMap Instruction.added)) :
    ((Frame.outer root.id).at .left).eval v = 0 ∧
      ((Frame.outer root.id).at .right).eval v = max width.value 0 := by
  have hleft := (holds_fixed ..).mp horigin
  have hwidth := content_size_of_frames hframes .horizontal hsize
  obtain ⟨hstart, hstop⟩ := isInset_of_frames hframes .horizontal
  have hlead : Axis.horizontal.lead Insets.none = 0 := rfl
  have htrail : Axis.horizontal.trail Insets.none = 0 := rfl
  have hzero : (0 : Binary64).value = 0 := rfl
  rw [hpadding, hlead, htrail, hdouble.sub_zero_eq, hdouble.sub_zero_eq, Binary64.max_value,
    hzero] at hwidth
  rw [hpadding, hlead, hzero] at hstart
  rw [hpadding, htrail, hzero, eval_stop, hwidth] at hstop
  refine ⟨hleft, ?_⟩
  have houter : Axis.horizontal.start = .left := rfl
  have hright : Axis.horizontal.stop = .right := rfl
  rw [houter, hleft] at hstart
  rw [houter, hright, hstart] at hstop
  linarith

/-- The children of a box that are shown lie within its content along its axis, and across it unless
they are of fixed size there. -/
def OutlineNode.HoldsChildren (v : Linear.Assignment) (n : OutlineNode) : Prop :=
  ∀ st, n.slot.stacking? = some st → ∀ c ∈ shown n.children,
    (Frame.outer c.id).IsWithin v st.direction.axis (Frame.content n.id) ∧
    ((st.direction.axis.cross.sizeOf c.view).isFixed = false →
      (Frame.outer c.id).IsWithin v st.direction.axis.cross (Frame.content n.id))

/-- The children of each node that is shown lie within it, when the constraints of the node and of
its children hold. -/
theorem holdsChildren_of_nodes {scale : Binary64} {n : OutlineNode} (hshown : n.hidden = false)
    (hnode : RequiredHold v ((Rules.ofNode sizes scale n).flatMap Instruction.added))
    (hchildren : ∀ c ∈ shown n.children, c.view.style.margin.IsNonneg ∧
      RequiredHold v ((Rules.frames c.id c.view).flatMap Instruction.added)) :
    n.HoldsChildren v := by
  intro st hst c hc
  have hbox := hnode.box hshown hst
  have hlinks : ∀ l ∈ Rules.links st.direction.axis n.children,
      0 ≤ l.lead.value ∧ 0 ≤ l.trail.value ∧ 0 ≤ l.size v st.direction.axis := by
    intro l hl
    obtain ⟨d, hd, rfl⟩ := List.mem_map.mp hl
    obtain ⟨hmargin, hframes⟩ := hchildren d hd
    exact ⟨hmargin.lead _, hmargin.trail _, size_nonneg_of_frames hframes _⟩
  have hmain : ∀ l ∈ Rules.links st.direction.axis n.children,
      (Frame.outer l.node).IsWithin v st.direction.axis (Frame.content n.id) :=
    fun l hl => isWithin_of_stacking hbox.stack (fun m hm => (hlinks m hm).1)
      (fun m hm => (hlinks m hm).2.1) (fun m hm => (hlinks m hm).2.2) hl
  obtain ⟨l, hl, hnode⟩ : ∃ l ∈ Rules.links st.direction.axis n.children, l.node = c.id :=
    ⟨_, List.mem_map_of_mem hc, rfl⟩
  exact ⟨hnode ▸ hmain l hl, isWithin_of_crossing (hbox.crossing hc) (hchildren c hc).1⟩

/-- A node that is reached across lies between the edges of the card. -/
theorem between_edges {root : OutlineNode} {width : Rat}
    (hpadding : ∀ k ∈ root.nodes, k.view.style.padding.IsNonneg)
    (hinset : ∀ k ∈ root.nodes, k.hidden = false → k.IsInset v)
    (hwithin : ∀ k ∈ root.nodes, k.hidden = false → k.HoldsChildren v)
    (hroot : 0 ≤ ((Frame.outer root.id).at .left).eval v ∧
      ((Frame.outer root.id).at .right).eval v ≤ width)
    {n : OutlineNode} (hn : root.IsReachedAcross n) (hshown : root.hidden = false) :
    (n ∈ root.nodes ∧ n.hidden = false) ∧ 0 ≤ ((Frame.outer n.id).at .left).eval v ∧
      ((Frame.outer n.id).at .right).eval v ≤ width := by
  induction hn with
  | root => exact ⟨⟨root.self_mem_nodes, hshown⟩, hroot⟩
  | @child n c st hn hc hcshown hst hacross ih =>
    obtain ⟨⟨hmem, hnshown⟩, hleft, hright⟩ := ih
    have hcs : c ∈ shown n.children := List.mem_filter.mpr ⟨hc, by simp [hcshown]⟩
    obtain ⟨hmain, hcross⟩ := hwithin n hmem hnshown st hst c hcs
    have hin : (Frame.outer c.id).IsWithin v .horizontal (Frame.content n.id) := by
      cases hd : st.direction with
      | row => simpa [hd, Direction.axis] using hmain
      | column =>
        have hflexible : c.view.width.isFixed = false := by simpa [hd] using hacross
        simpa [hd, Direction.axis, Axis.cross] using
          hcross (by simpa [hd, Direction.axis, Axis.cross, Axis.sizeOf] using hflexible)
    have hcontent := (hinset n hmem hnshown).isWithin (hpadding n hmem) .horizontal
    refine ⟨⟨OutlineNode.mem_nodes_of_mem_children hc hmem, hcshown⟩, ?_, ?_⟩
    · exact hleft.trans (hcontent.1.trans hin.1)
    · exact (hin.2.trans hcontent.2).trans hright

/-- Whatever values satisfy the required constraints of a body with insets that are not negative, in
which no trailing edge is loosened: the content of each node that is shown is its outer frame inset
by the padding, each child that is shown lies within the content of its parent along the main axis,
and across it unless its size there is fixed, and each node that is reached through rows and
children of flexible width lies between the edges of the card. -/
theorem frames_contained {v : Linear.Assignment} {s : LayoutSettings} {sizes : ImageSizes}
    {identity : CardIdentity} {items : List Item} {cs : CarouselCache (Card σ)}
    (hinsets : ∀ view ∈ bodyViews items,
      view.style.margin.IsNonneg ∧ view.style.padding.IsNonneg)
    (hpinned : ∀ n ∈ (Card.bodyOutline s sizes identity items cs).nodes, n.loosened = false)
    (hdouble : s.maxWidth.IsDouble)
    (h : RequiredHold v (Sheet.editAll []
      (Rules.ofCard sizes s.displayScale (Card.bodyOutline s sizes identity items cs))).constraints) :
    (∀ n ∈ (Card.bodyOutline s sizes identity items cs).nodes, n.hidden = false →
      n.IsInset v ∧ n.HoldsChildren v) ∧
    (∀ n, (Card.bodyOutline s sizes identity items cs).IsReachedAcross n →
      0 ≤ ((Frame.outer n.id).at .left).eval v ∧
        ((Frame.outer n.id).at .right).eval v ≤ max s.maxWidth.value 0) := by
  have hregular := Card.isRegular_bodyOutline s sizes identity items cs
  have hstyles : ∀ n ∈ (Card.bodyOutline s sizes identity items cs).nodes,
      n.view.style.margin.IsNonneg ∧ n.view.style.padding.IsNonneg :=
    fun n hn => isNonneg_of_mem_bodyOutline hinsets hn
  have hrootshown : (Card.bodyOutline s sizes identity items cs).hidden = false := rfl
  have hrootpadding : (Card.bodyOutline s sizes identity items cs).view.style.padding =
    Insets.none := rfl
  have hrootsize : (Card.bodyOutline s sizes identity items cs).view.width = .fixed s.maxWidth :=
    rfl
  generalize Card.bodyOutline s sizes identity items cs = root at *
  have hnode : ∀ n ∈ root.nodes, n.hidden = false →
      RequiredHold v ((Rules.ofNode sizes s.displayScale n).flatMap Instruction.added) :=
    fun n hn hshown => Rules.requiredHold_ofNode hregular hpinned h hn hshown
  have hinset : ∀ n ∈ root.nodes, n.hidden = false → n.IsInset v :=
    fun n hn hshown => isInset_of_frames ((hnode n hn hshown).frames hshown)
  have hwithin : ∀ n ∈ root.nodes, n.hidden = false → n.HoldsChildren v := by
    intro n hn hshown
    refine holdsChildren_of_nodes hshown (hnode n hn hshown) fun c hc => ?_
    obtain ⟨hc, hcshown⟩ := List.mem_filter.mp hc
    have hmem : c ∈ root.nodes := OutlineNode.mem_nodes_of_mem_children hc hn
    have hcshown : c.hidden = false := by simpa using hcshown
    exact ⟨(hstyles c hmem).1, (hnode c hmem hcshown).frames hcshown⟩
  have horigin : Constraint.fixed ((Frame.outer root.id).at .left) 0 .required ∈
      (Rules.ofCard sizes s.displayScale root).flatMap Instruction.added :=
    List.mem_flatMap.mpr ⟨.state (.fixed ((Frame.outer root.id).at .left) 0 .required),
      List.mem_append_left _ List.mem_cons_self, List.mem_singleton_self _⟩
  obtain ⟨hleft, hright⟩ := root_of_holds hrootpadding hrootsize hdouble
    (Rules.requiredHold_added hpinned h _ horigin rfl)
    ((hnode root root.self_mem_nodes hrootshown).frames hrootshown)
  refine ⟨fun n hn hshown => ⟨hinset n hn hshown, hwithin n hn hshown⟩, fun n hn => ?_⟩
  exact (between_edges (fun k hk => (hstyles k hk).2) hinset hwithin ⟨hleft.ge, hright.le⟩ hn
    hrootshown).2

end

/-- A padded box as wide as a card of two hundred points, around an image of fixed size. -/
theorem frames_contained_of_padded_box :
    let image : Item := .image false
      ⟨{ View.plain with width := .fixed 40, height := .fixed 30 }, "a", .aspectFit, none, none⟩
    let items : List Item := [.box { View.plain with
      width := .fill
      style := { ViewStyle.plain with margin := ⟨5, 5, 5, 5⟩, padding := ⟨10, 10, 10, 10⟩ } }
      .column [image] .topLeft]
    let s : LayoutSettings := { maxWidth := 200 }
    let root := Card.bodyOutline s .empty ⟨"m", 0⟩ items
      (.empty : CarouselCache (Card (Linear.Tableau .exact)))
    let v : Linear.Assignment := fun
      | .unknown i => ([0, 0, 200, 60, 0, 0, 200, 60, 0, 0, 0, 0, 0, 60, 0, 0,
        5, 5, 190, 50, 15, 15, 170, 30, 0, 15, 0, 0, 0, 45, 0, 0,
        15, 15, 40, 30, 15, 15, 40, 30] : List Rat).getD i 0
      | _ => 0
    RequiredHold v (Sheet.editAll [] (Rules.ofCard .empty s.displayScale root)).constraints ∧
    (∀ n ∈ root.nodes, n.hidden = false → n.IsInset v ∧ n.HoldsChildren v) ∧
    (∀ n, root.IsReachedAcross n → 0 ≤ ((Frame.outer n.id).at .left).eval v ∧
        ((Frame.outer n.id).at .right).eval v ≤ max s.maxWidth.value 0) := by
  intro image items s root v
  have hinsets : ∀ view ∈ bodyViews items,
      view.style.margin.IsNonneg ∧ view.style.padding.IsNonneg := by
    decide +kernel
  have hpinned : ∀ n ∈ root.nodes, n.loosened = false := by
    simp only [root, items, image, Card.bodyOutline, Card.arrangeAll_cons, Card.arrangeAll_nil,
      Card.arrange_box, Card.arrange_image]
    decide +kernel
  have h : RequiredHold v
      (Sheet.editAll [] (Rules.ofCard .empty s.displayScale root)).constraints := by
    simp only [root, items, image, Card.bodyOutline, Card.arrangeAll_cons, Card.arrangeAll_nil,
      Card.arrange_box, Card.arrange_image]
    decide +kernel
  exact ⟨h, frames_contained hinsets hpinned (Binary64.isDouble_round 200) h⟩

end MessageCard
