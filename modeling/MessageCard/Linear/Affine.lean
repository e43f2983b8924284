import MessageCard.Binary64

/-!
# Affine expressions over columns

An affine expression is a constant plus multiples of columns. A column is an unknown, which may take
any value, a slack, which is never negative, or a marker, which is always zero. The terms are kept
in the order of their columns, unknowns first, each column at most once and never with the factor
zero, so that two expressions are added by merging their terms.

Expressions are computed at a precision: exactly, or as a machine does that rounds every result to a
double and takes very small factors for zero.
-/
namespace MessageCard.Linear

/-- A quantity of the linear system. -/
inductive Column where
  /-- An unknown of the caller, of any value. -/
  | unknown (index : Nat)
  /-- A quantity that is never negative. -/
  | slack (index : Nat)
  /-- The trace of an equation that must hold: always zero. -/
  | marker (index : Nat)
  deriving DecidableEq, Repr

namespace Column

/-- The order of terms: unknowns, slacks, markers, each kind by its index. -/
def before : Column → Column → Bool
  | .unknown i, .unknown j => i < j
  | .unknown _, _ => true
  | _, .unknown _ => false
  | .slack i, .slack j => i < j
  | .slack _, .marker _ => true
  | .marker _, .slack _ => false
  | .marker i, .marker j => i < j

def isUnknown : Column → Bool
  | .unknown _ => true
  | _ => false

def isSlack : Column → Bool
  | .slack _ => true
  | _ => false

end Column

/-- How numbers are computed with. -/
structure Precision where
  /-- What is kept of a result. -/
  round : Rat → Rat
  /-- A factor closer to zero than this is taken for zero. -/
  tolerance : Rat

namespace Precision

/-- Every result is kept as it is. -/
def exact : Precision := ⟨id, 0⟩

/-- Every result is rounded to a double. -/
def double : Precision := ⟨fun x => (Binary64.round x).value, 1 / 100000000⟩

/-- Whether a factor is taken for zero. -/
def isZero (p : Precision) (x : Rat) : Bool := x = 0 || (-p.tolerance < x && x < p.tolerance)

@[simp] theorem round_exact (x : Rat) : exact.round x = x := rfl

@[simp] theorem isZero_exact (x : Rat) : exact.isZero x = true ↔ x = 0 := by
  simp only [isZero, exact, Bool.or_eq_true, decide_eq_true_eq, Bool.and_eq_true]
  constructor
  · rintro (h | ⟨h, h'⟩)
    · exact h
    · grind
  · exact Or.inl

end Precision

/-- A multiple of a column. -/
structure Term where
  column : Column
  factor : Rat
  deriving DecidableEq, Repr

/-- A constant plus multiples of columns. -/
structure Affine where
  constant : Rat
  terms : List Term
  deriving DecidableEq, Repr

/-- What a linear system's quantities are worth. -/
abbrev Assignment := Column → Rat

namespace Affine

/-- The expression that is a constant. -/
def ofConstant (c : Rat) : Affine := ⟨c, []⟩

/-- The expression that is one column. -/
def ofColumn (c : Column) : Affine := ⟨0, [⟨c, 1⟩]⟩

/-- The value of a list of terms. -/
def evalTerms (v : Assignment) : List Term → Rat
  | [] => 0
  | t :: rest => t.factor * v t.column + evalTerms v rest

/-- The value of an expression. -/
def eval (v : Assignment) (a : Affine) : Rat := a.constant + evalTerms v a.terms

/-- The terms with one more in its place, unless its factor is zero. -/
def consTerm (p : Precision) (c : Column) (f : Rat) (terms : List Term) : List Term :=
  if p.isZero f then terms else ⟨c, f⟩ :: terms

/-- The terms `xs + k * ys`. -/
def mergeScaled (p : Precision) (k : Rat) : List Term → List Term → List Term
  | [], [] => []
  | [], y :: ys => consTerm p y.column (p.round (k * y.factor)) (mergeScaled p k [] ys)
  | x :: xs, [] => x :: xs
  | x :: xs, y :: ys =>
    if x.column = y.column then
      consTerm p x.column (p.round (x.factor + p.round (k * y.factor))) (mergeScaled p k xs ys)
    else if x.column.before y.column then x :: mergeScaled p k xs (y :: ys)
    else consTerm p y.column (p.round (k * y.factor)) (mergeScaled p k (x :: xs) ys)
  termination_by xs ys => xs.length + ys.length

/-- The expression `a + k * b`. -/
def addScaled (p : Precision) (a : Affine) (k : Rat) (b : Affine) : Affine :=
  ⟨p.round (a.constant + p.round (k * b.constant)), mergeScaled p k a.terms b.terms⟩

/-- The expression `k * a`. -/
def scale (p : Precision) (k : Rat) (a : Affine) : Affine :=
  ⟨p.round (k * a.constant), a.terms.map fun t => ⟨t.column, p.round (k * t.factor)⟩⟩

/-- The expression with a term added. -/
def addTerm (p : Precision) (a : Affine) (c : Column) (k : Rat) : Affine :=
  a.addScaled p k (ofColumn c)

/-- The factor of a column among terms. -/
def factorIn (c : Column) : List Term → Rat
  | [] => 0
  | t :: rest => if t.column = c then t.factor else factorIn c rest

/-- The factor of a column. -/
def factor (a : Affine) (c : Column) : Rat := factorIn c a.terms

/-- The expression without a column. -/
def drop (a : Affine) (c : Column) : Affine := ⟨a.constant, a.terms.filter (·.column ≠ c)⟩

/-- The expression with another one in place of a column. -/
def substitute (p : Precision) (a : Affine) (c : Column) (b : Affine) : Affine :=
  let k := a.factor c
  if k = 0 then a else (a.drop c).addScaled p k b

/-- The expression that a column equals when `a` is zero, for a column of `a`. -/
def solveFor (p : Precision) (a : Affine) (c : Column) : Affine :=
  (a.drop c).scale p (p.round (-(a.factor c)⁻¹))

theorem evalTerms_consTerm (v : Assignment) (c : Column) (f : Rat) (terms : List Term) :
    evalTerms v (consTerm .exact c f terms) = f * v c + evalTerms v terms := by
  unfold consTerm
  split
  · next h => rw [Precision.isZero_exact] at h; simp only [h, Rat.zero_mul, Rat.zero_add]
  · rfl

theorem evalTerms_mergeScaled (v : Assignment) (k : Rat) (xs ys : List Term) :
    evalTerms v (mergeScaled .exact k xs ys) = evalTerms v xs + k * evalTerms v ys := by
  fun_induction mergeScaled .exact k xs ys with
  | case1 => simp only [evalTerms, Rat.mul_zero, Rat.add_zero]
  | case2 y ys ih => simp only [evalTerms_consTerm, evalTerms, ih, Precision.round_exact]; grind
  | case3 x xs => simp only [evalTerms, Rat.mul_zero, Rat.add_zero]
  | case4 x xs y ys h ih =>
    simp only [evalTerms_consTerm, evalTerms, ih, h, Precision.round_exact]; grind
  | case5 x xs y ys h hb ih => simp only [evalTerms, ih]; grind
  | case6 x xs y ys h hb ih =>
    simp only [evalTerms_consTerm, evalTerms, ih, Precision.round_exact]; grind

@[simp] theorem eval_ofConstant (v : Assignment) (c : Rat) : (ofConstant c).eval v = c := by
  simp only [ofConstant, eval, evalTerms, Rat.add_zero]

@[simp] theorem eval_ofColumn (v : Assignment) (c : Column) : (ofColumn c).eval v = v c := by
  simp only [ofColumn, eval, evalTerms, Rat.add_zero, Rat.zero_add, Rat.one_mul]

@[simp] theorem eval_addScaled (v : Assignment) (a b : Affine) (k : Rat) :
    (a.addScaled .exact k b).eval v = a.eval v + k * b.eval v := by
  simp only [addScaled, eval, evalTerms_mergeScaled, Precision.round_exact]; grind

end Affine
end MessageCard.Linear
