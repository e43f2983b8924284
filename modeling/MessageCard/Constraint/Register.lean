import MessageCard.Constraint
import MessageCard.Table

/-!
# Unknowns given out on demand

A linear solver makes its unknowns itself, each different from all it made before, and knows nothing
of frames. A register keeps which unknown was made for which side of which frame: a constraint that
is entered asks for the sides that it speaks of, and a side that was never asked for is given the
next unknown that the solver makes. Constraints that are taken out leave the register as it is.

A running system does without a register, for it numbers the sides of frames once and for all
(`Frame.unknown`). Both ways enter the same multiples of the same sides and differ in nothing but
the names of the unknowns.
-/
namespace MessageCard

/-- A property as multiples of sides. -/
def Variable.terms (x : Variable) (k : Rat) : List ((Frame × Side) × Rat) :=
  x.property.sides.map fun p => ((x.frame, p.1), k * p.2)

/-- A constraint as a solver receives it: multiples of unknowns and a constant, how their sum
compares with zero, and the price of a unit by which it is missed. -/
structure Entry where
  multiples : List (Nat × Rat)
  constant : Rat
  sense : Linear.Sense
  weight : Option Rat
  deriving DecidableEq, Repr

/-- The comparison of an entry, with the multiples of each unknown added up. -/
def Entry.relation (e : Entry) : Linear.Relation :=
  ⟨e.multiples.foldl (fun a m => a.addTerm .exact (.unknown m.1) m.2) (.ofConstant e.constant),
    e.sense⟩

namespace Constraint

/-- The difference of the two sides of a constraint as multiples of sides of frames: first the
variable on the left, then what is taken off for the one on the right. -/
def terms (c : Constraint) : List ((Frame × Side) × Rat) :=
  match c.right with
  | .value _ => c.left.terms 1
  | .variable right ratio _ => c.left.terms 1 ++ right.terms (-ratio)

/-- The entry of a constraint where the sides of frames have these names. -/
def entry (c : Constraint) (name : Frame × Side → Nat) : Entry :=
  ⟨c.terms.map fun t => (name t.1, t.2), c.constant, c.sense, c.priority.weight⟩

end Constraint

/-- The unknowns made so far for sides of frames, and how many these are. -/
structure Register where
  unknowns : Table (Frame × Side) Nat
  made : Nat

namespace Register

/-- The register before any constraint was entered. -/
def empty : Register := ⟨.empty, 0⟩

/-- The unknown of a side of a frame; the `supply` says which one is made next. -/
def ask (supply : Nat → Nat) (r : Register) (x : Frame × Side) : Nat × Register :=
  match r.unknowns.find? x with
  | some u => (u, r)
  | none => (supply r.made, ⟨r.unknowns.insert x (supply r.made), r.made + 1⟩)

/-- Multiples of sides as multiples of unknowns, asked for one after another. -/
def askAll (supply : Nat → Nat) (r : Register) :
    List ((Frame × Side) × Rat) → List (Nat × Rat) × Register
  | [] => ([], r)
  | t :: ts =>
    let (u, r) := r.ask supply t.1
    let (ms, r) := r.askAll supply ts
    ((u, t.2) :: ms, r)

/-- A constraint as it is entered. -/
def enter (supply : Nat → Nat) (r : Register) (c : Constraint) : Entry × Register :=
  let (multiples, r) := r.askAll supply c.terms
  (⟨multiples, c.constant, c.sense, c.priority.weight⟩, r)

/-- The register after a history of additions. -/
def enterAll (supply : Nat → Nat) (r : Register) (cs : List Constraint) : Register :=
  cs.foldl (fun r c => (r.enter supply c).2) r

end Register
end MessageCard
