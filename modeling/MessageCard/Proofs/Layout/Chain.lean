import Mathlib.Algebra.BigOperators.Group.List.Basic
import Mathlib.Algebra.Order.Field.Rat
import Mathlib.Tactic.NormNum
import MessageCard.Layout.Rules
import MessageCard.Proofs.Constraint.Meaning

/-!
# Children along the main axis

The children of a box follow one another along its main axis, between a space before the first and a
space after the last. Whatever values satisfy the required constraints of this chain, the spaces and
the children with their margins take up the content of the box exactly; where the spaces end is a
matter of alignment, and children that all fill their box are of one size.

The facts about a chain are stated for its links. The last theorem puts them together for the
children of a box.
-/
namespace MessageCard

/-! ## The two ends of a frame -/

@[simp] theorem eval_stop (v : Linear.Assignment) (f : Frame) (a : Axis) :
    (f.at a.stop).eval v = (f.at a.start).eval v + (f.at a.size).eval v := by
  cases a <;> rfl

namespace Rules

variable {v : Linear.Assignment} {parent : Nat} {a : Axis} {alignment : Alignment}
  {ls : List Link} {overflows : Bool}

/-- The size of a link's node along an axis. -/
def Link.size (v : Linear.Assignment) (a : Axis) (l : Link) : Rat :=
  ((Frame.outer l.node).at a.size).eval v

/-- The margins of a link together. -/
def Link.margins (l : Link) : Rat := l.lead.value + l.trail.value

/-- What a link takes up along an axis: its node with the margins around it. -/
def Link.extent (v : Linear.Assignment) (a : Axis) (l : Link) : Rat :=
  l.lead.value + l.size v a + l.trail.value

theorem sum_extent (v : Linear.Assignment) (a : Axis) (ls : List Link) :
    (ls.map (Link.extent v a)).sum = (ls.map Link.margins).sum + (ls.map (Link.size v a)).sum := by
  induction ls with
  | nil => simp
  | cons l ls ih =>
    simp only [List.map_cons, List.sum_cons, ih, Link.extent, Link.margins]
    ring

/-! ## The chain -/

/-- Whatever the chain hangs on, the space after it starts where the last link ends. -/
theorem trailing_start_of_chain {before : Variable} {gap : Rat}
    (h : RequiredHold v (chain parent a before gap ls)) :
    ((Frame.trailing parent).at a.start).eval v =
      before.eval v + gap + (ls.map (Link.extent v a)).sum := by
  induction ls generalizing before gap with
  | nil =>
    have hend := (requiredHold_cons _).mp h
    simpa using hend.1 rfl
  | cons l ls ih =>
    obtain ⟨hfirst, hrest⟩ := (requiredHold_cons _).mp h
    have hstart := (holds_equal ..).mp (hfirst rfl)
    rw [ih hrest, eval_stop, hstart]
    simp only [List.map_cons, List.sum_cons, Link.extent, Link.size]
    ring

/-- Each link starts, its own margin aside, where the links before it end. -/
theorem start_of_chain {before : Variable} {gap : Rat}
    (h : RequiredHold v (chain parent a before gap ls)) {k : Nat} {l : Link}
    (hl : ls[k]? = some l) :
    ((Frame.outer l.node).at a.start).eval v =
      before.eval v + gap + ((ls.take k).map (Link.extent v a)).sum + l.lead.value := by
  induction ls generalizing before gap k with
  | nil => simp at hl
  | cons first ls ih =>
    obtain ⟨hfirst, hrest⟩ := (requiredHold_cons _).mp h
    have hstart := (holds_equal ..).mp (hfirst rfl)
    cases k with
    | zero =>
      obtain rfl : first = l := by simpa using hl
      simp only [hstart, List.take_zero, List.map_nil, List.sum_nil]
      ring
    | succ k =>
      rw [ih hrest (by simpa using hl), eval_stop, hstart]
      simp only [List.take_succ_cons, List.map_cons, List.sum_cons, Link.extent, Link.size]
      ring

/-! ## The parts of a stack -/

/-- The required constraints of a stack, part by part. -/
theorem requiredHold_stacking
    (h : RequiredHold v (stacking parent a alignment ls overflows)) :
    ((Frame.leading parent).at a.start).eval v = ((Frame.content parent).at a.start).eval v ∧
    ((Frame.trailing parent).at a.stop).eval v = ((Frame.content parent).at a.stop).eval v ∧
    0 ≤ ((Frame.leading parent).at a.size).eval v ∧
    0 ≤ ((Frame.trailing parent).at a.size).eval v ∧
    RequiredHold v (chain parent a ((Frame.leading parent).at a.stop) 0 ls) ∧
    RequiredHold v (spaces parent a alignment (overflows || ls.any (·.fills))) ∧
    RequiredHold v (shares a ls) := by
  simp only [stacking, requiredHold_append, requiredHold_cons] at h
  obtain ⟨⟨⟨⟨hlead, htrail, hleading, htrailing, -⟩, hchain⟩, hspaces⟩, hshares⟩ := h
  refine ⟨?_, ?_, (holds_notBelow ..).mp (hleading rfl), (holds_notBelow ..).mp (htrailing rfl),
    hchain, hspaces, hshares⟩
  · simpa using hlead rfl
  · simpa using htrail rfl

/-- The spaces and the links take up the content. -/
theorem content_size_of_stacking
    (h : RequiredHold v (stacking parent a alignment ls overflows)) :
    ((Frame.content parent).at a.size).eval v =
      ((Frame.leading parent).at a.size).eval v + (ls.map (Link.extent v a)).sum +
        ((Frame.trailing parent).at a.size).eval v := by
  obtain ⟨hlead, htrail, -, -, hchain, -, -⟩ := requiredHold_stacking h
  have hend := trailing_start_of_chain hchain
  rw [eval_stop] at hend
  rw [eval_stop, eval_stop, hend, hlead] at htrail
  linarith

/-- A link starts behind the space before the chain and the links before it. -/
theorem start_of_stacking (h : RequiredHold v (stacking parent a alignment ls overflows))
    {k : Nat} {l : Link} (hl : ls[k]? = some l) :
    ((Frame.outer l.node).at a.start).eval v =
      ((Frame.content parent).at a.start).eval v + ((Frame.leading parent).at a.size).eval v +
        ((ls.take k).map (Link.extent v a)).sum + l.lead.value := by
  obtain ⟨hlead, -, -, -, hchain, -, -⟩ := requiredHold_stacking h
  rw [start_of_chain hchain hl, eval_stop, hlead]
  ring

theorem spaces_eq_zero (h : RequiredHold v (spaces parent a alignment true)) :
    ((Frame.leading parent).at a.size).eval v = 0 ∧
      ((Frame.trailing parent).at a.size).eval v = 0 := by
  simp only [spaces, if_true, requiredHold_cons] at h
  exact ⟨(holds_fixed ..).mp (h.1 rfl), (holds_fixed ..).mp (h.2.1 rfl)⟩

/-- How the spaces obey an alignment. -/
def Aligned (leading trailing : Rat) : Alignment → Prop
  | .start => leading = 0
  | .center => leading = trailing
  | .stop => trailing = 0

theorem aligned_of_spaces {full : Bool} (h : RequiredHold v (spaces parent a alignment full)) :
    Aligned (((Frame.leading parent).at a.size).eval v)
      (((Frame.trailing parent).at a.size).eval v) alignment := by
  cases full with
  | true =>
    obtain ⟨hleading, htrailing⟩ := spaces_eq_zero h
    cases alignment <;> simp [Aligned, hleading, htrailing]
  | false =>
    have hside : ∀ {c : Constraint}, RequiredHold v [c] → c.priority = .required → c.Holds v :=
      fun h hc => h _ (List.mem_singleton_self _) hc
    cases alignment with
    | start => exact (holds_fixed ..).mp (hside h rfl)
    | center => exact ((holds_equal ..).mp (hside h rfl)).trans (add_zero _)
    | stop => exact (holds_fixed ..).mp (hside h rfl)

/-- Links that all fill their box have one size. -/
theorem size_eq_of_shares (h : RequiredHold v (shares a ls)) (hfills : ∀ l ∈ ls, l.fills = true)
    {l m : Link} (hl : l ∈ ls) (hm : m ∈ ls) : l.size v a = m.size v a := by
  have hall : ls.all (·.fills) = true := List.all_eq_true.mpr hfills
  have hfilter : ls.filter (·.fills) = ls := List.filter_eq_self.mpr hfills
  cases ls with
  | nil => simp at hl
  | cons first rest =>
    simp only [shares, hfilter, hall, if_true] at h
    have hfirst : ∀ l ∈ first :: rest, l.size v a = first.size v a := by
      intro l hl
      rcases List.mem_cons.mp hl with rfl | hl
      · rfl
      · have hshare := (holds_equal ..).mp (h _ (List.mem_map_of_mem hl) rfl)
        exact hshare.trans (add_zero _)
    rw [hfirst l hl, hfirst m hm]

/-- Links that all fill their box share equally what their margins leave. -/
theorem size_of_fills (h : RequiredHold v (stacking parent a alignment ls overflows))
    (hfills : ∀ l ∈ ls, l.fills = true) {l : Link} (hl : l ∈ ls) :
    l.size v a =
      (((Frame.content parent).at a.size).eval v - (ls.map Link.margins).sum) / ls.length := by
  obtain ⟨-, -, -, -, -, hspaces, hshares⟩ := requiredHold_stacking h
  have hany : ls.any (·.fills) = true := List.any_eq_true.mpr ⟨l, hl, hfills l hl⟩
  rw [hany, Bool.or_true] at hspaces
  obtain ⟨hleading, htrailing⟩ := spaces_eq_zero hspaces
  have hsizes : (ls.map (Link.size v a)).sum = ls.length * l.size v a := by
    have hsame : ∀ x ∈ ls.map (Link.size v a), x = l.size v a := by
      intro x hx
      obtain ⟨m, hm, rfl⟩ := List.mem_map.mp hx
      exact size_eq_of_shares hshares hfills hm hl
    rw [List.sum_eq_card_nsmul _ _ hsame, List.length_map, nsmul_eq_mul]
  have hlength : (ls.length : Rat) ≠ 0 := by
    have hpos : 0 < ls.length := List.length_pos_of_mem hl
    exact_mod_cast hpos.ne'
  rw [content_size_of_stacking h, sum_extent, hsizes, hleading, htrailing, eq_div_iff hlength]
  ring

end Rules

/-! ## The children of a box -/

/-- The children that are shown. -/
def shown (children : List OutlineNode) : List OutlineNode := children.filter (!·.hidden)

namespace OutlineNode

/-- The size of a node along an axis. -/
def size (v : Linear.Assignment) (a : Axis) (n : OutlineNode) : Rat :=
  ((Frame.outer n.id).at a.size).eval v

/-- The margins of a node along an axis, together. -/
def margins (a : Axis) (n : OutlineNode) : Rat :=
  (a.lead n.view.style.margin).value + (a.trail n.view.style.margin).value

/-- What a node takes up along an axis: its outer frame with the margins around it. -/
def extent (v : Linear.Assignment) (a : Axis) (n : OutlineNode) : Rat :=
  (a.lead n.view.style.margin).value + n.size v a + (a.trail n.view.style.margin).value

end OutlineNode

/-- The constraints by which a box stacks its children. -/
def Rules.ofStack (parent : Nat) (s : Stacking) (children : List OutlineNode) : List Constraint :=
  stacking parent s.direction.axis (s.direction.axis.alignment s.align)
    (links s.direction.axis children) s.overflows

/-- The children that a box shows partition its content along the main axis, whatever values satisfy
the required constraints of the stack; the root stacks its items like a plain column. The space
before the children, the children with their margins and the space after them make up the content,
each child comes behind those before it, the spaces obey the alignment and vanish when a child fills
the box or the children do not fit, and children that all fill the box share it equally. -/
theorem main_axis_partition {v : Linear.Assignment} {parent : Nat} {s : Stacking}
    {children : List OutlineNode} (h : RequiredHold v (Rules.ofStack parent s children)) :
    let a := s.direction.axis
    let leading := ((Frame.leading parent).at a.size).eval v
    let trailing := ((Frame.trailing parent).at a.size).eval v
    let content := ((Frame.content parent).at a.size).eval v
    let cs := shown children
    content = leading + (cs.map (·.extent v a)).sum + trailing ∧
    0 ≤ leading ∧ 0 ≤ trailing ∧
    (∀ k c, cs[k]? = some c → ((Frame.outer c.id).at a.start).eval v =
      ((Frame.content parent).at a.start).eval v + leading +
        ((cs.take k).map (·.extent v a)).sum + (a.lead c.view.style.margin).value) ∧
    Rules.Aligned leading trailing (a.alignment s.align) ∧
    ((s.overflows = true ∨ ∃ c ∈ cs, (a.sizeOf c.view).isFill = true) →
      leading = 0 ∧ trailing = 0) ∧
    ((∀ c ∈ cs, (a.sizeOf c.view).isFill = true) → ∀ c ∈ cs,
      c.size v a = (content - (cs.map (·.margins a)).sum) / cs.length) := by
  intro a leading trailing content cs
  obtain ⟨-, -, hleading, htrailing, -, hspaces, -⟩ := Rules.requiredHold_stacking h
  let link (c : OutlineNode) : Rules.Link :=
    ⟨c.id, a.lead c.view.style.margin, a.trail c.view.style.margin, (a.sizeOf c.view).isFill⟩
  have hlinks : Rules.links a children = cs.map link := rfl
  have hextent : ∀ ds : List OutlineNode,
      (ds.map link).map (Rules.Link.extent v a) = ds.map (·.extent v a) :=
    fun ds => List.map_map
  refine ⟨?_, hleading, htrailing, fun k c hc => ?_, Rules.aligned_of_spaces hspaces,
    fun hfull => ?_, fun hfills c hc => ?_⟩
  · have hcontent := Rules.content_size_of_stacking h
    rwa [hlinks, hextent] at hcontent
  · have hlink : (Rules.links a children)[k]? = some (link c) := by
      rw [hlinks, List.getElem?_map, hc]
      rfl
    have hstart := Rules.start_of_stacking h hlink
    rwa [hlinks, ← List.map_take, hextent] at hstart
  · have hany : (s.overflows || (Rules.links a children).any (·.fills)) = true := by
      rw [Bool.or_eq_true, hlinks, List.any_map, List.any_eq_true]
      exact hfull
    rw [hany] at hspaces
    exact Rules.spaces_eq_zero hspaces
  · have hfilled : ∀ l ∈ Rules.links a children, l.fills = true := by
      intro l hl
      obtain ⟨d, hd, rfl⟩ := List.mem_map.mp hl
      exact hfills d hd
    have hsize := Rules.size_of_fills h hfilled (List.mem_map_of_mem hc : link c ∈ cs.map link)
    rwa [hlinks, List.map_map, List.length_map] at hsize

/-- A centered row of two children with margins, and a third one that is hidden. -/
theorem main_axis_partition_of_centered_row :
    let item (id : Nat) (hidden : Bool) (width left right : Binary64) : OutlineNode :=
      ⟨id, "", { View.plain with
        width := .fixed width
        style := { ViewStyle.plain with margin := ⟨0, 0, left, right⟩ } },
        hidden, false, .box ⟨.column, .topLeft, false⟩, []⟩
    let children := [item 2 false 40 5 5, item 3 true 70 1 1, item 4 false 20 10 0]
    let v : Linear.Assignment := fun c =>
      if c = .unknown 22 then 200 else if c ∈ [.unknown 26, .unknown 30] then 60
      else if c = .unknown 32 then 65 else if c = .unknown 34 then 40
      else if c = .unknown 64 then 120 else if c = .unknown 66 then 20
      else if c = .unknown 28 then 140 else 0
    let s : Stacking := ⟨.row, ⟨.center, .top⟩, false⟩
    RequiredHold v (Rules.ofStack 1 s children) ∧
      200 = 60 + ((shown children).map (·.extent v .horizontal)).sum + 60 := by
  intro item children v s
  have h : RequiredHold v (Rules.ofStack 1 s children) := by decide +kernel
  exact ⟨h, (main_axis_partition h).1⟩

end MessageCard
