import MessageCard.Constraint
import Std.Data.HashMap

/-!
# A system of constraints that grows and shrinks

Constraints are added and removed one at a time, and named by handles in between. A required
constraint that contradicts the required ones already present is kept at high priority instead, so
adding never fails; the order of additions decides which of two contradicting ones gives way.

The system leaves the mathematics to a solver of weighted relations and works with any of them. What
it adds is the meaning of frames and priorities, the handles, and the memory of values: an unknown
that no constraint names any more keeps the value that the last solution with it gave.
-/
namespace MessageCard

/-- A solver of relations that come and go under names. Every relation with a weight is accepted, a
required one may be refused, and what was accepted can be released. -/
class RelationSolver (σ : Type) where
  empty : σ
  /-- With a relation that must hold, unless it contradicts those before. -/
  require? : σ → Nat → Linear.Relation → Option σ
  /-- With a relation that may be broken at a price for each unit. -/
  wish : σ → Nat → Linear.Relation → Rat → σ
  release : σ → Nat → σ
  /-- The value of an unknown where the price paid is least. -/
  value : σ → Nat → Rat

instance (p : Linear.Precision) : RelationSolver (Linear.Tableau p) where
  empty := Linear.Tableau.empty
  require? := Linear.Tableau.require?
  wish := Linear.Tableau.wish
  release := Linear.Tableau.release
  value := Linear.Tableau.value

/-- The name of a constraint in a system. -/
structure Handle where
  index : Nat
  deriving DecidableEq, Repr

/-- What can go wrong with a system of constraints. -/
inductive SystemError where
  | unknownHandle (handle : Handle)
  deriving DecidableEq, Repr

/-- The text of an error. -/
def SystemError.message : SystemError → String
  | .unknownHandle h => "Unknown constraint handle " ++ toString h.index

/-- Constraints that are present, and the values that their unknowns had last. -/
structure ConstraintSystem (σ : Type) where
  solver : σ
  present : List (Handle × Constraint)
  nextHandle : Nat
  /-- How many required constraints had to be kept at high priority. -/
  demotions : Nat
  values : Std.HashMap Nat Rat

/-- The value of each unknown. -/
structure Solution where
  values : Std.HashMap Nat Rat

namespace Solution

/-- The value of an unknown; one that was never solved for is zero. -/
def unknown (s : Solution) (index : Nat) : Rat := s.values.getD index 0

/-- The value of any property of a frame. -/
def get (s : Solution) (v : Variable) : Rat :=
  let side (x : Side) : Rat := s.unknown (v.frame.unknown x)
  match v.property with
  | .left => side .left
  | .top => side .top
  | .width => side .width
  | .height => side .height
  | .right => side .left + side .width
  | .bottom => side .top + side .height
  | .centerX => side .left + side .width / 2
  | .centerY => side .top + side .height / 2

end Solution

namespace ConstraintSystem

variable {σ : Type} [RelationSolver σ]

/-- The system without constraints. -/
def empty : ConstraintSystem σ := ⟨RelationSolver.empty, [], 0, 0, ∅⟩

/-- The solver with a constraint at its priority; nothing when a required one is refused. -/
def place? (solver : σ) (name : Nat) (c : Constraint) : Option σ :=
  match c.priority.weight with
  | none => RelationSolver.require? solver name c.relation
  | some w => some (RelationSolver.wish solver name c.relation w)

/-- The price of a unit by which a demoted constraint is missed. -/
def demotedWeight : Rat := 1000000

/-- The system with one more constraint, and its handle. -/
def add (s : ConstraintSystem σ) (c : Constraint) : Handle × ConstraintSystem σ :=
  let handle : Handle := ⟨s.nextHandle⟩
  let grown := { s with present := (handle, c) :: s.present, nextHandle := s.nextHandle + 1 }
  match place? s.solver s.nextHandle c with
  | some solver => (handle, { grown with solver })
  | none =>
    (handle, { grown with
      solver := RelationSolver.wish s.solver s.nextHandle c.relation demotedWeight
      demotions := s.demotions + 1 })

/-- The system without the constraint of a handle. -/
def remove (s : ConstraintSystem σ) (h : Handle) : Except SystemError (ConstraintSystem σ) :=
  if s.present.any (·.1 = h) then
    .ok { s with
      solver := RelationSolver.release s.solver h.index
      present := s.present.filter (·.1 ≠ h) }
  else .error (.unknownHandle h)

/-- A solution of the constraints present, and the system that remembers it. -/
def solve (s : ConstraintSystem σ) : Solution × ConstraintSystem σ :=
  let values := s.present.foldl (fun values p =>
    p.2.unknowns.foldl (fun values i =>
      values.insert i (RelationSolver.value s.solver i)) values) s.values
  (⟨values⟩, { s with values })

end ConstraintSystem
end MessageCard
