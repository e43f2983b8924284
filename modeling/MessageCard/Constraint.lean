import MessageCard.Linear.Tableau

/-!
# Constraints between frames

A layout is described by rectangles, one or more for each node, and by constraints between their
edges. Four properties of a rectangle are unknowns of the linear system: left, top, width and
height. The other edges and the centers are sums of those, so a constraint on any property is a
relation between unknowns.
-/
namespace MessageCard

/-- Which rectangle of a node is meant. -/
inductive FrameRole where
  /-- The node's outer frame, margins excluded. -/
  | outer
  /-- The outer frame inset by the padding. -/
  | content
  /-- The space before a box's first child on the main axis. -/
  | leading
  /-- The space after a box's last child on the main axis. -/
  | trailing
  deriving DecidableEq, Repr

/-- A rectangle of the layout. -/
structure Frame where
  role : FrameRole
  node : Nat
  deriving DecidableEq, Repr

namespace Frame

def outer (node : Nat) : Frame := ⟨.outer, node⟩
def content (node : Nat) : Frame := ⟨.content, node⟩
def leading (node : Nat) : Frame := ⟨.leading, node⟩
def trailing (node : Nat) : Frame := ⟨.trailing, node⟩

end Frame

/-- The properties of a rectangle that are unknowns. -/
inductive Side where
  | left
  | top
  | width
  | height
  deriving DecidableEq, Repr

/-- The properties of a rectangle that constraints may name. -/
inductive Property where
  | left
  | top
  | width
  | height
  | right
  | bottom
  | centerX
  | centerY
  deriving DecidableEq, Repr

/-- A property of one rectangle. -/
structure Variable where
  frame : Frame
  property : Property
  deriving DecidableEq, Repr

/-- The number of a role among the roles. -/
def FrameRole.index : FrameRole → Nat
  | .outer => 0
  | .content => 1
  | .leading => 2
  | .trailing => 3

/-- The number of a side among the sides. -/
def Side.index : Side → Nat
  | .left => 0
  | .top => 1
  | .width => 2
  | .height => 3

/-- The number of the unknown that stands for a side of a frame. -/
def Frame.unknown (f : Frame) (s : Side) : Nat := f.node * 16 + f.role.index * 4 + s.index

/-- Different sides, and sides of different frames, are different unknowns. -/
theorem Frame.unknown_inj {f g : Frame} {s t : Side} :
    f.unknown s = g.unknown t ↔ f = g ∧ s = t := by
  constructor
  · intro h
    obtain ⟨r, n⟩ := f
    obtain ⟨q, m⟩ := g
    cases r <;> cases q <;> cases s <;> cases t <;>
      simp [Frame.unknown, FrameRole.index, Side.index] at h ⊢ <;> omega
  · rintro ⟨rfl, rfl⟩
    rfl

/-- A property as a sum of sides, each with its factor. -/
def Property.sides : Property → List (Side × Rat)
  | .left => [(.left, 1)]
  | .top => [(.top, 1)]
  | .width => [(.width, 1)]
  | .height => [(.height, 1)]
  | .right => [(.left, 1), (.width, 1)]
  | .bottom => [(.top, 1), (.height, 1)]
  | .centerX => [(.left, 1), (.width, 1 / 2)]
  | .centerY => [(.top, 1), (.height, 1 / 2)]

/-- A multiple of a property as multiples of unknowns. -/
def Variable.multiples (v : Variable) (k : Rat) : List (Nat × Rat) :=
  v.property.sides.map fun p => (v.frame.unknown p.1, k * p.2)

/-- How hard the solver tries to keep a constraint. -/
inductive Priority where
  /-- The hugging of containers that wrap their content. -/
  | fitting
  /-- Intrinsic sizes and placeholders. -/
  | low
  /-- Preferred relations that may be broken. -/
  | high
  | required
  deriving DecidableEq, Repr

/-- The price of one unit of violation; a required constraint is never broken. -/
def Priority.weight : Priority → Option Rat
  | .required => none
  | .high => some 1000000
  | .low => some 1000
  | .fitting => some 1

/-- What a variable is compared with. -/
inductive Reference where
  | value (v : Rat)
  /-- A multiple of another variable, plus an offset. -/
  | variable (other : Variable) (ratio offset : Rat)
  deriving DecidableEq, Repr

/-- A relation that the layout should satisfy. -/
structure Constraint where
  left : Variable
  sense : Linear.Sense
  right : Reference
  priority : Priority
  deriving DecidableEq, Repr

namespace Constraint

/-- `left = value` -/
def fixed (left : Variable) (value : Rat) (priority : Priority) : Constraint :=
  ⟨left, .equal, .value value, priority⟩

/-- `left ≥ value` -/
def notBelow (left : Variable) (value : Rat) (priority : Priority) : Constraint :=
  ⟨left, .atLeast, .value value, priority⟩

/-- `left ≤ value` -/
def notAbove (left : Variable) (value : Rat) (priority : Priority) : Constraint :=
  ⟨left, .atMost, .value value, priority⟩

/-- `left = right + offset` -/
def equal (left right : Variable) (offset : Rat) (priority : Priority) : Constraint :=
  ⟨left, .equal, .variable right 1 offset, priority⟩

/-- `left ≥ right + offset` -/
def atLeast (left right : Variable) (offset : Rat) (priority : Priority) : Constraint :=
  ⟨left, .atLeast, .variable right 1 offset, priority⟩

/-- `left ≤ right + offset` -/
def atMost (left right : Variable) (offset : Rat) (priority : Priority) : Constraint :=
  ⟨left, .atMost, .variable right 1 offset, priority⟩

/-- `left = ratio * right` -/
def proportional (left right : Variable) (ratio : Rat) (priority : Priority) : Constraint :=
  ⟨left, .equal, .variable right ratio 0, priority⟩

/-- The difference of the two sides, as multiples of unknowns. -/
def multiples (c : Constraint) : List (Nat × Rat) :=
  match c.right with
  | .value _ => c.left.multiples 1
  | .variable right ratio _ => c.left.multiples 1 ++ right.multiples (-ratio)

/-- The constant part of the difference of the two sides. -/
def constant (c : Constraint) : Rat :=
  match c.right with
  | .value v => -v
  | .variable _ _ offset => -offset

/-- The constraint as a comparison with zero. -/
def relation (c : Constraint) : Linear.Relation :=
  ⟨c.multiples.foldl (fun e p => e.addTerm .exact (.unknown p.1) p.2) (.ofConstant c.constant),
    c.sense⟩

/-- The unknowns that the constraint says something about. -/
def unknowns (c : Constraint) : List Nat := (c.multiples.filter (·.2 ≠ 0)).map (·.1)

end Constraint
end MessageCard
