import Mathlib.Data.Real.Basic
import Mathlib.Tactic.Ring
import MessageCard.Constraint.Register
import MessageCard.Constraint.System

/-!
# Seven kinds of demands

What a layout asks of the properties of frames comes in seven kinds. Each is documented as a
comparison of values of properties, and each is entered into the linear system as a comparison of
multiples of sides with zero. The edges and centers that are not sides are written out as sums
twice, when a demand is entered and when a solution is read, and both must mean the same: over any
real values of the unknowns the entry holds exactly if the demand does.
-/
namespace MessageCard

/-- The value of a property where the sides of its frame have these values. -/
def Property.read {K : Type} [Field K] (side : Side → K) : Property → K
  | .left => side .left
  | .top => side .top
  | .width => side .width
  | .height => side .height
  | .right => side .left + side .width
  | .bottom => side .top + side .height
  | .centerX => side .left + side .width / 2
  | .centerY => side .top + side .height / 2

/-- The value of a property of a frame. -/
def Variable.read {K : Type} [Field K] (value : Frame × Side → K) (x : Variable) : K :=
  x.property.read fun s => value (x.frame, s)

/-- A solution reads a property from the values of the unknowns. -/
theorem Solution.get_eq_read (s : Solution) (x : Variable) :
    s.get x = x.read fun y => s.unknown (y.1.unknown y.2) := by
  obtain ⟨f, p⟩ := x
  cases p <;> rfl

/-- A layout constraint, its priority left open. -/
inductive Demand where
  /-- `x = value` -/
  | fixed (x : Variable) (value : Rat)
  /-- `x ≥ value` -/
  | notBelow (x : Variable) (value : Rat)
  /-- `x ≤ value` -/
  | notAbove (x : Variable) (value : Rat)
  /-- `left = right + offset` -/
  | equal (left right : Variable) (offset : Rat)
  /-- `left ≥ right + offset` -/
  | atLeast (left right : Variable) (offset : Rat)
  /-- `left ≤ right + offset` -/
  | atMost (left right : Variable) (offset : Rat)
  /-- `target = source * ratio` -/
  | proportional (target source : Variable) (ratio : Rat)
  deriving DecidableEq, Repr

namespace Demand

/-- The constraint that asks for this at a priority. -/
def constraint (p : Priority) : Demand → Constraint
  | fixed x value => .fixed x value p
  | notBelow x value => .notBelow x value p
  | notAbove x value => .notAbove x value p
  | equal left right offset => .equal left right offset p
  | atLeast left right offset => .atLeast left right offset p
  | atMost left right offset => .atMost left right offset p
  | proportional target source ratio => .proportional target source ratio p

/-- What is asked for, as a relation between values of properties. -/
def Holds (value : Variable → ℝ) : Demand → Prop
  | fixed x a => value x = a
  | notBelow x a => value x ≥ a
  | notAbove x a => value x ≤ a
  | equal left right offset => value left = value right + offset
  | atLeast left right offset => value left ≥ value right + offset
  | atMost left right offset => value left ≤ value right + offset
  | proportional target source ratio => value target = value source * ratio

/-- A demand at another priority is the same but for its price. -/
theorem entry_constraint (d : Demand) (p q : Priority) (name : Frame × Side → ℕ) :
    (d.constraint q).entry name = { (d.constraint p).entry name with weight := q.weight } := by
  cases d <;> rfl

theorem terms_constraint (d : Demand) (p q : Priority) :
    (d.constraint q).terms = (d.constraint p).terms := by
  cases d <;> rfl

end Demand

/-! ## Entries over real numbers -/

/-- How the value of an expression should compare with zero. -/
def Linear.Sense.ComparesZero (a : ℝ) : Linear.Sense → Prop
  | .equal => a = 0
  | .atLeast => a ≥ 0
  | .atMost => a ≤ 0

/-- The value of terms where the columns have real values. -/
noncomputable def Linear.realTerms (v : Linear.Column → ℝ) (ts : List Linear.Term) : ℝ :=
  (ts.map fun t => (t.factor : ℝ) * v t.column).sum

/-- The value of an expression where the columns have real values. -/
noncomputable def Linear.Affine.realValue (v : Linear.Column → ℝ) (a : Linear.Affine) : ℝ :=
  a.constant + Linear.realTerms v a.terms

/-- A relation holds where the columns have these real values. -/
def Linear.Relation.HoldsOver (r : Linear.Relation) (v : Linear.Column → ℝ) : Prop :=
  r.sense.ComparesZero (r.expression.realValue v)

/-- The value of multiples of unknowns. -/
noncomputable def realMultiples (v : ℕ → ℝ) (ms : List (ℕ × Rat)) : ℝ :=
  (ms.map fun m => (m.2 : ℝ) * v m.1).sum

/-- An entry holds where the unknowns have these real values. -/
def Entry.HoldsOver (e : Entry) (v : ℕ → ℝ) : Prop :=
  e.sense.ComparesZero (realMultiples v e.multiples + e.constant)

namespace Linear

variable (v : Column → ℝ)

@[simp] theorem realTerms_nil : realTerms v [] = 0 := rfl

@[simp] theorem realTerms_cons (t : Term) (ts : List Term) :
    realTerms v (t :: ts) = t.factor * v t.column + realTerms v ts := by
  simp [realTerms]

theorem realTerms_consTerm (c : Column) (f : Rat) (ts : List Term) :
    realTerms v (Affine.consTerm .exact c f ts) = f * v c + realTerms v ts := by
  unfold Affine.consTerm
  split
  case isTrue h =>
    rw [Precision.isZero_exact] at h
    simp [h]
  case isFalse => simp

/-- Merging adds up the values of terms. -/
theorem realTerms_mergeScaled (k : Rat) (xs ys : List Term) :
    realTerms v (Affine.mergeScaled .exact k xs ys) = realTerms v xs + k * realTerms v ys := by
  fun_induction Affine.mergeScaled .exact k xs ys with
  | case1 => simp
  | case2 y ys ih =>
    rw [realTerms_consTerm, ih, realTerms_cons, Precision.round_exact]
    push_cast
    ring
  | case3 x xs => simp
  | case4 x xs y ys h ih =>
    rw [realTerms_consTerm, ih, realTerms_cons, realTerms_cons, h]
    simp only [Precision.round_exact]
    push_cast
    ring
  | case5 x xs y ys h hb ih =>
    rw [realTerms_cons, ih, realTerms_cons, realTerms_cons]
    ring
  | case6 x xs y ys h hb ih =>
    rw [realTerms_consTerm, ih, realTerms_cons, realTerms_cons, Precision.round_exact]
    push_cast
    ring

/-- One more term adds its multiple of the column. -/
theorem realValue_addTerm (a : Affine) (c : Column) (k : Rat) :
    (a.addTerm .exact c k).realValue v = a.realValue v + k * v c := by
  rw [Affine.addTerm, Affine.addScaled, Affine.realValue, realTerms_mergeScaled, Affine.realValue,
    Affine.ofColumn, Precision.round_exact, Precision.round_exact]
  simp
  ring

end Linear

theorem realMultiples_cons (v : ℕ → ℝ) (m : ℕ × Rat) (ms : List (ℕ × Rat)) :
    realMultiples v (m :: ms) = m.2 * v m.1 + realMultiples v ms := by
  simp [realMultiples]

theorem realValue_foldl_addTerm (v : Linear.Column → ℝ) (ms : List (ℕ × Rat)) (a : Linear.Affine) :
    (ms.foldl (fun a m => a.addTerm .exact (.unknown m.1) m.2) a).realValue v =
      a.realValue v + realMultiples (fun i => v (.unknown i)) ms := by
  induction ms generalizing a with
  | nil => simp [realMultiples]
  | cons m ms ih =>
    rw [List.foldl_cons, ih, Linear.realValue_addTerm, realMultiples_cons]
    ring

/-- Adding up the multiples of each unknown does not change what an entry says. -/
theorem Entry.holdsOver_relation (e : Entry) (v : Linear.Column → ℝ) :
    e.relation.HoldsOver v ↔ e.HoldsOver fun i => v (.unknown i) := by
  have hvalue : e.relation.expression.realValue v =
      realMultiples (fun i => v (.unknown i)) e.multiples + e.constant := by
    rw [Entry.relation, realValue_foldl_addTerm]
    simp [Linear.Affine.realValue, Linear.Affine.ofConstant]
    ring
  rw [Linear.Relation.HoldsOver, hvalue]
  rfl

/-! ## What an entry says -/

/-- The value of multiples of sides of frames. -/
noncomputable def realSides (value : Frame × Side → ℝ) (ts : List ((Frame × Side) × Rat)) : ℝ :=
  (ts.map fun t => (t.2 : ℝ) * value t.1).sum

theorem realMultiples_map (v : ℕ → ℝ) (name : Frame × Side → ℕ)
    (ts : List ((Frame × Side) × Rat)) :
    realMultiples v (ts.map fun t => (name t.1, t.2)) = realSides (fun x => v (name x)) ts := by
  rw [realMultiples, realSides, List.map_map]
  rfl

theorem realSides_append (value : Frame × Side → ℝ) (ts us : List ((Frame × Side) × Rat)) :
    realSides value (ts ++ us) = realSides value ts + realSides value us := by
  simp [realSides]

/-- The multiples of sides that stand for a property add up to that multiple of what is read. -/
theorem Variable.realSides_terms (x : Variable) (k : Rat) (value : Frame × Side → ℝ) :
    realSides value (x.terms k) = k * x.read value := by
  obtain ⟨f, p⟩ := x
  cases p <;>
    simp [realSides, Variable.terms, Property.sides, Variable.read, Property.read] <;> ring

/-- What a property is compared with, where the sides of frames have these values. -/
noncomputable def Reference.read (value : Frame × Side → ℝ) : Reference → ℝ
  | .value a => a
  | .variable other ratio offset => ratio * other.read value + offset

/-- The two sides of a constraint differ by what its entry compares with zero. -/
theorem Constraint.realSides_terms (c : Constraint) (value : Frame × Side → ℝ) :
    realSides value c.terms + c.constant = c.left.read value - c.right.read value := by
  obtain ⟨left, sense, right, priority⟩ := c
  rcases right with a | ⟨other, ratio, offset⟩
  · simp only [Constraint.terms, Constraint.constant, Reference.read, Variable.realSides_terms]
    push_cast
    ring
  · simp only [Constraint.terms, Constraint.constant, Reference.read, realSides_append,
      Variable.realSides_terms]
    push_cast
    ring

/-- The entry of a demand says of the sides of frames what is asked of the properties. -/
theorem Demand.comparesZero_iff (d : Demand) (p : Priority) (value : Frame × Side → ℝ) :
    (d.constraint p).sense.ComparesZero
      (realSides value (d.constraint p).terms + (d.constraint p).constant) ↔
      d.Holds fun x => x.read value := by
  rw [Constraint.realSides_terms]
  cases d with
  | fixed x a => exact sub_eq_zero
  | notBelow x a => exact sub_nonneg
  | notAbove x a => exact sub_nonpos
  | equal left right offset =>
    show left.read value - ((1 : Rat) * right.read value + offset) = 0 ↔ _
    rw [Rat.cast_one, one_mul]
    exact sub_eq_zero
  | atLeast left right offset =>
    show left.read value - ((1 : Rat) * right.read value + offset) ≥ 0 ↔ _
    rw [Rat.cast_one, one_mul]
    exact sub_nonneg
  | atMost left right offset =>
    show left.read value - ((1 : Rat) * right.read value + offset) ≤ 0 ↔ _
    rw [Rat.cast_one, one_mul]
    exact sub_nonpos
  | proportional target source ratio =>
    show target.read value - (ratio * source.read value + (0 : Rat)) = 0 ↔ _
    rw [Rat.cast_zero, add_zero, mul_comm]
    exact sub_eq_zero

/-- Under any names of the sides the entry of a demand holds if what is read off is as asked. -/
theorem Demand.holdsOver_entry (d : Demand) (p : Priority) (name : Frame × Side → ℕ) (v : ℕ → ℝ) :
    ((d.constraint p).entry name).HoldsOver v ↔ d.Holds fun x => x.read fun y => v (name y) := by
  rw [← d.comparesZero_iff p, Entry.HoldsOver, Constraint.entry, realMultiples_map]

/-- The entry that a running system makes names each side of each frame by its number. -/
theorem Constraint.relation_eq (c : Constraint) :
    c.relation = (c.entry fun y => y.1.unknown y.2).relation := by
  have hmultiples : ∀ (x : Variable) (k : Rat),
      x.multiples k = (x.terms k).map fun t => (t.1.1.unknown t.1.2, t.2) := by
    intro x k
    rw [Variable.multiples, Variable.terms, List.map_map]
    rfl
  have hall : c.multiples = c.terms.map fun t => (t.1.1.unknown t.1.2, t.2) := by
    obtain ⟨left, sense, right, priority⟩ := c
    rcases right with a | ⟨other, ratio, offset⟩
    · exact hmultiples left 1
    · rw [Constraint.multiples, Constraint.terms, List.map_append, ← hmultiples, ← hmultiples]
  rw [Constraint.relation, hall]
  rfl

/-- The relation of a demand holds if what a solution reads is as asked. -/
theorem Demand.holdsOver_relation (d : Demand) (p : Priority) (v : Linear.Column → ℝ) :
    (d.constraint p).relation.HoldsOver v ↔
      d.Holds fun x => x.read fun y => v (.unknown (y.1.unknown y.2)) := by
  rw [Constraint.relation_eq, Entry.holdsOver_relation, d.holdsOver_entry]

end MessageCard
