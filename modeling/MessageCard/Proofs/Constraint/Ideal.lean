import Mathlib.Algebra.BigOperators.Group.Multiset.Basic
import Mathlib.Algebra.Order.Ring.Rat
import MessageCard.Proofs.Constraint.System

/-!
# An ideal solver

The ideal solver refuses a required relation only if it contradicts those before. It finds values for
the relations it holds taken together, without regard to their names and their order: such as satisfy
all required relations at the least price for all others.
-/
namespace MessageCard

/-- By how much values miss a relation. -/
def Linear.Relation.miss (r : Linear.Relation) (v : Linear.Assignment) : Rat :=
  match r.sense with
  | .equal => |r.expression.eval v|
  | .atLeast => max (-r.expression.eval v) 0
  | .atMost => max (r.expression.eval v) 0

/-- A solver that is the list of the relations it holds, newest first. -/
structure IdealSolver where
  held : List PricedRelation

namespace IdealSolver

/-- The relations held with their prices. -/
def relations (s : IdealSolver) : Multiset (Linear.Relation × Option Rat) := s.held.map (·.2)

/-- Values that satisfy all required relations. -/
def IsFeasible (rs : Multiset (Linear.Relation × Option Rat)) (v : Linear.Assignment) : Prop :=
  ∀ r ∈ rs, r.2 = none → r.1.Holds v

/-- What values cost. -/
def price (rs : Multiset (Linear.Relation × Option Rat)) (v : Linear.Assignment) : Rat :=
  (rs.map fun r => r.2.elim 0 (· * r.1.miss v)).sum

/-- Feasible values of the least price. -/
def IsOptimal (rs : Multiset (Linear.Relation × Option Rat)) (v : Linear.Assignment) : Prop :=
  IsFeasible rs v ∧ ∀ u, IsFeasible rs u → price rs v ≤ price rs u

open Classical in
/-- Optimal values, where there are any. -/
noncomputable def values (rs : Multiset (Linear.Relation × Option Rat)) : Linear.Assignment :=
  if h : ∃ v, IsOptimal rs v then h.choose else fun _ => 0

open Classical in
noncomputable instance : RelationSolver IdealSolver where
  empty := ⟨[]⟩
  require? s name r :=
    if ∃ v, IsFeasible s.relations v ∧ r.Holds v then some ⟨(name, r, none) :: s.held⟩ else none
  wish s name r weight := ⟨(name, r, some weight) :: s.held⟩
  release s name := ⟨s.held.filter (·.1 ≠ name)⟩
  value s i := values s.relations (.unknown i)

open Classical in
theorem require?_eq (s : IdealSolver) (name : Nat) (r : Linear.Relation) :
    RelationSolver.require? s name r = if ∃ v, IsFeasible s.relations v ∧ r.Holds v then
      some ⟨(name, r, none) :: s.held⟩ else none := rfl

theorem values_isOptimal {rs : Multiset (Linear.Relation × Option Rat)}
    (h : ∃ v, IsOptimal rs v) : IsOptimal rs (values rs) := by
  rw [values, dif_pos h]
  exact h.choose_spec

/-- The solver holds what it was given. -/
theorem held_eq {s : IdealSolver} {rs : List PricedRelation}
    (h : RelationSolver.Holding s rs) : s.held = rs := by
  induction h with
  | empty => rfl
  | require hs ht ih =>
    rw [require?_eq] at ht
    split at ht
    case isTrue =>
      cases ht
      rw [ih]
    case isFalse => cases ht
  | wish n r w _ ih => exact congrArg (List.cons (n, r, some w)) ih
  | release n _ ih => exact congrArg (List.filter (·.1 ≠ n)) ih

/-- No system leaves the ideal solver a choice. -/
theorem isDetermined {s : ConstraintSystem IdealSolver} {rs : List PricedRelation}
    (h : s.Holds rs) : s.IsDetermined := by
  refine ⟨rs, h, fun t ts ht hperm i => ?_⟩
  have hrelations : t.relations = s.solver.relations := by
    rw [relations, relations, held_eq ht, held_eq h.holding]
    exact Quot.sound hperm
  exact congrArg (fun rs => values rs (.unknown i)) hrelations

end IdealSolver
end MessageCard
