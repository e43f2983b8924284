/-!
# Double-precision numbers as exact values

Sizes and positions are double-precision numbers. A number is held as the rational it denotes, and
each operation computes the exact result and rounds it once, to the nearest double and to the even
one of two equally near. So every sum and product below has a value that can be reasoned about, and
it is the value that a processor gives for finite results.

Zero has no sign here and there are no infinities: a result too large for a double stays an exact
multiple of its last place, and `overflows` tells it apart where that matters.
-/
namespace MessageCard

/-- Two to the power of `n`. -/
def twoTo (n : Nat) : Nat := Nat.pow 2 n

/-- Ten to the power of `n`. -/
def tenTo (n : Nat) : Nat := Nat.pow 10 n

/-- A finite double-precision number, held as the rational it denotes. -/
structure Binary64 where
  value : Rat
  deriving DecidableEq

namespace Binary64

/-- The natural number nearest to `n / d`, and the even one of two equally near. -/
def nearestEven (n d : Nat) : Nat :=
  let q := n / d
  let r := n % d
  if 2 * r < d then q else if d < 2 * r then q + 1 else if q % 2 = 0 then q else q + 1

/-- The greatest `e` with `2 ^ e ≤ n / d`, for positive `n` and `d`. -/
def binaryExponent (n d : Nat) : Int :=
  let e : Int := (n.log2 : Int) - d.log2
  if n * twoTo (-e).toNat < d * twoTo e.toNat then e - 1 else e

/-- The exponent of the last binary place that a double near `n / d` has. -/
def lastPlace (n d : Nat) : Int :=
  max (binaryExponent n d - 52) (-1074)

/-- The rational `m * 2 ^ e`. -/
def scaled (m e : Int) : Rat :=
  if 0 ≤ e then ((m * twoTo e.toNat : Int) : Rat) else mkRat m (twoTo (-e).toNat)

/-- The double nearest to a rational. -/
def round (x : Rat) : Binary64 :=
  if x.num = 0 then ⟨0⟩
  else
    let n := x.num.natAbs
    let e := lastPlace n x.den
    let m := nearestEven (n * twoTo (-e).toNat) (x.den * twoTo e.toNat)
    ⟨scaled (x.num.sign * m) e⟩

instance : NatCast Binary64 := ⟨fun n => round n⟩
instance : IntCast Binary64 := ⟨fun n => round n⟩
instance (n : Nat) : OfNat Binary64 n := ⟨round n⟩
instance : OfScientific Binary64 := ⟨fun m s e => round (OfScientific.ofScientific m s e)⟩
instance : Inhabited Binary64 := ⟨⟨0⟩⟩
instance : Zero Binary64 := ⟨⟨0⟩⟩

instance : Add Binary64 := ⟨fun a b => round (a.value + b.value)⟩
instance : Sub Binary64 := ⟨fun a b => round (a.value - b.value)⟩
instance : Mul Binary64 := ⟨fun a b => round (a.value * b.value)⟩
instance : Div Binary64 := ⟨fun a b => round (a.value / b.value)⟩
instance : Neg Binary64 := ⟨fun a => ⟨-a.value⟩⟩

instance : LE Binary64 := ⟨fun a b => a.value ≤ b.value⟩
instance : LT Binary64 := ⟨fun a b => a.value < b.value⟩
instance (a b : Binary64) : Decidable (a ≤ b) := inferInstanceAs (Decidable (a.value ≤ b.value))
instance (a b : Binary64) : Decidable (a < b) := inferInstanceAs (Decidable (a.value < b.value))
instance : Max Binary64 := ⟨fun a b => if a ≤ b then b else a⟩
instance : Min Binary64 := ⟨fun a b => if a ≤ b then a else b⟩

theorem le_iff {a b : Binary64} : a ≤ b ↔ a.value ≤ b.value := Iff.rfl

theorem lt_iff {a b : Binary64} : a < b ↔ a.value < b.value := Iff.rfl

theorem add_def (a b : Binary64) : a + b = round (a.value + b.value) := rfl

theorem sub_def (a b : Binary64) : a - b = round (a.value - b.value) := rfl

theorem mul_def (a b : Binary64) : a * b = round (a.value * b.value) := rfl

theorem div_def (a b : Binary64) : a / b = round (a.value / b.value) := rfl

@[simp] theorem neg_value (a : Binary64) : (-a).value = -a.value := rfl

/-- The distance from zero. -/
def abs (a : Binary64) : Binary64 := if a.value < 0 then -a else a

/-- The number rounded toward zero to an integer. -/
def truncate (a : Binary64) : Int := a.value.num.tdiv a.value.den

/-- The integer nearest to the number; a half goes away from zero. -/
def nearestInt (a : Binary64) : Int :=
  a.value.num.sign * ((2 * a.value.num.natAbs + a.value.den) / (2 * a.value.den) : Nat)

/-- Whether the number is past the largest finite double. -/
def overflows (a : Binary64) : Bool := twoTo 1024 ≤ a.value.num.natAbs / a.value.den

/-- The number kept to thousandths, a half going away from zero. -/
def toThousandths (a : Binary64) : Binary64 := (a * 1000).nearestInt / 1000

/-- The sum of a list, added from the left. -/
def sum (xs : List Binary64) : Binary64 := xs.foldl (· + ·) 0

/-- The greatest of a list and zero. -/
def maximum (xs : List Binary64) : Binary64 := xs.foldl max 0

end Binary64
end MessageCard
