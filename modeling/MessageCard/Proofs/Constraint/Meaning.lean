import Mathlib.Tactic.Linarith
import Mathlib.Tactic.Ring
import MessageCard.Constraint

/-!
# What constraints say

Values of the unknowns give every property of every frame a value: its own for the four sides that
are unknowns, and a sum of those for the other edges and the centers. A constraint, entered into the
linear system as a relation between unknowns, holds exactly if the values of the properties it names
compare as it says.
-/
namespace MessageCard

/-- The value of a side of a frame. -/
def Frame.side (v : Linear.Assignment) (f : Frame) (s : Side) : Rat := v (.unknown (f.unknown s))

/-- The value of a property of a frame. -/
def Variable.eval (v : Linear.Assignment) (x : Variable) : Rat :=
  match x.property with
  | .left => x.frame.side v .left
  | .top => x.frame.side v .top
  | .width => x.frame.side v .width
  | .height => x.frame.side v .height
  | .right => x.frame.side v .left + x.frame.side v .width
  | .bottom => x.frame.side v .top + x.frame.side v .height
  | .centerX => x.frame.side v .left + x.frame.side v .width / 2
  | .centerY => x.frame.side v .top + x.frame.side v .height / 2

/-- The value that a variable is compared with. -/
def Reference.eval (v : Linear.Assignment) : Reference → Rat
  | .value x => x
  | .variable other ratio offset => ratio * other.eval v + offset

/-- How two values should compare. -/
def Linear.Sense.Compares (a b : Rat) : Linear.Sense → Prop
  | .equal => a = b
  | .atLeast => b ≤ a
  | .atMost => a ≤ b

/-- The constraint holds at given values of the unknowns. -/
def Constraint.Holds (c : Constraint) (v : Linear.Assignment) : Prop := c.relation.Holds v

/-- All required constraints among some hold. -/
def RequiredHold (v : Linear.Assignment) (cs : List Constraint) : Prop :=
  ∀ c ∈ cs, c.priority = .required → c.Holds v

/-! ## From relations to comparisons -/

/-- The value of a sum of multiples of unknowns. -/
def evalMultiples (v : Linear.Assignment) (ms : List (Nat × Rat)) : Rat :=
  (ms.map fun m => m.2 * v (.unknown m.1)).sum

theorem evalMultiples_append (v : Linear.Assignment) (a b : List (Nat × Rat)) :
    evalMultiples v (a ++ b) = evalMultiples v a + evalMultiples v b := by
  simp [evalMultiples]

theorem eval_foldl_addTerm (v : Linear.Assignment) (ms : List (Nat × Rat)) (e : Linear.Affine) :
    (ms.foldl (fun e m => e.addTerm .exact (.unknown m.1) m.2) e).eval v =
      e.eval v + evalMultiples v ms := by
  induction ms generalizing e with
  | nil => simp [evalMultiples]
  | cons m ms ih =>
    rw [List.foldl_cons, ih, Linear.Affine.addTerm, Linear.Affine.eval_addScaled,
      Linear.Affine.eval_ofColumn]
    simp only [evalMultiples, List.map_cons, List.sum_cons]
    ring

theorem evalMultiples_multiples (v : Linear.Assignment) (x : Variable) (k : Rat) :
    evalMultiples v (x.multiples k) = k * x.eval v := by
  obtain ⟨f, p⟩ := x
  cases p <;>
    simp only [evalMultiples, Variable.multiples, Property.sides, Variable.eval, Frame.side,
      List.map_cons, List.map_nil, List.sum_cons, List.sum_nil] <;>
    ring

/-- The two sides of a constraint differ by the value of its relation. -/
theorem Constraint.eval_relation (c : Constraint) (v : Linear.Assignment) :
    c.relation.expression.eval v = c.left.eval v - c.right.eval v := by
  obtain ⟨left, sense, right, priority⟩ := c
  rw [Constraint.relation, eval_foldl_addTerm, Linear.Affine.eval_ofConstant]
  rcases right with x | ⟨other, ratio, offset⟩
  · simp only [Constraint.multiples, Constraint.constant, evalMultiples_multiples, Reference.eval]
    ring
  · simp only [Constraint.multiples, Constraint.constant, evalMultiples_append,
      evalMultiples_multiples, Reference.eval]
    ring

/-- A constraint holds if the values of its sides compare as it says. -/
theorem Constraint.holds_iff (c : Constraint) (v : Linear.Assignment) :
    c.Holds v ↔ c.sense.Compares (c.left.eval v) (c.right.eval v) := by
  rw [Constraint.Holds, Linear.Relation.Holds, c.eval_relation v]
  show (match c.sense with
    | .equal => c.left.eval v - c.right.eval v = 0
    | .atLeast => 0 ≤ c.left.eval v - c.right.eval v
    | .atMost => c.left.eval v - c.right.eval v ≤ 0) ↔ _
  cases c.sense with
  | equal => exact sub_eq_zero
  | atLeast => exact sub_nonneg
  | atMost => exact sub_nonpos

instance (a b : Rat) (s : Linear.Sense) : Decidable (s.Compares a b) :=
  match s with
  | .equal => inferInstanceAs (Decidable (a = b))
  | .atLeast => inferInstanceAs (Decidable (b ≤ a))
  | .atMost => inferInstanceAs (Decidable (a ≤ b))

instance (c : Constraint) (v : Linear.Assignment) : Decidable (c.Holds v) :=
  decidable_of_iff _ (c.holds_iff v).symm

instance (v : Linear.Assignment) (cs : List Constraint) : Decidable (RequiredHold v cs) :=
  inferInstanceAs (Decidable (∀ c ∈ cs, c.priority = .required → c.Holds v))

/-! ## Each kind of constraint -/

variable (v : Linear.Assignment) (x y : Variable) (a : Rat) (p : Priority)

@[simp] theorem holds_fixed : (Constraint.fixed x a p).Holds v ↔ x.eval v = a :=
  Constraint.holds_iff _ v

@[simp] theorem holds_notBelow : (Constraint.notBelow x a p).Holds v ↔ a ≤ x.eval v :=
  Constraint.holds_iff _ v

@[simp] theorem holds_equal :
    (Constraint.equal x y a p).Holds v ↔ x.eval v = y.eval v + a := by
  rw [Constraint.holds_iff]
  simp [Constraint.equal, Linear.Sense.Compares, Reference.eval]

@[simp] theorem holds_atLeast :
    (Constraint.atLeast x y a p).Holds v ↔ y.eval v + a ≤ x.eval v := by
  rw [Constraint.holds_iff]
  simp [Constraint.atLeast, Linear.Sense.Compares, Reference.eval]

@[simp] theorem holds_atMost :
    (Constraint.atMost x y a p).Holds v ↔ x.eval v ≤ y.eval v + a := by
  rw [Constraint.holds_iff]
  simp [Constraint.atMost, Linear.Sense.Compares, Reference.eval]

/-! ## Required constraints -/

variable {v} {cs ds : List Constraint}

theorem RequiredHold.mono (h : RequiredHold v ds) (hsub : cs ⊆ ds) : RequiredHold v cs :=
  fun c hc => h c (hsub hc)

theorem requiredHold_cons (c : Constraint) :
    RequiredHold v (c :: cs) ↔ (c.priority = .required → c.Holds v) ∧ RequiredHold v cs :=
  List.forall_mem_cons

theorem requiredHold_append :
    RequiredHold v (cs ++ ds) ↔ RequiredHold v cs ∧ RequiredHold v ds :=
  List.forall_mem_append

theorem RequiredHold.nil : RequiredHold v [] := fun _ hc => absurd hc List.not_mem_nil

end MessageCard
