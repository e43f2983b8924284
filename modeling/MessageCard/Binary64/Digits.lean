import MessageCard.Binary64

/-!
# The shortest decimal text of a double

A double is written with the fewest decimal digits that still read back as it. The doubles near it
cut an interval out of the line; of the decimal grids with one, two, three digits and so on the
first that meets the interval gives the text, through the one of its two points next to the number
that is nearer. All comparisons are between natural numbers.
-/
namespace MessageCard

/-- The decimal number `digits * 10 ^ exponent`. -/
structure Decimal where
  digits : Nat
  exponent : Int
  deriving DecidableEq

namespace Binary64

/-- The greatest `e` with `10 ^ e ≤ n / d`, for positive `n` and `d`. -/
def decimalExponent (n d : Nat) : Int :=
  let e := (binaryExponent n d * 30103) / 100000
  if tenTo (e + 1).toNat * d ≤ n * tenTo (-(e + 1)).toNat then e + 1 else e

/-- The interval of the line that rounds to one double, on a grid fine enough for it and its
neighbours: `lower ≤ value ≤ upper`, with the ends included when `closed` holds. -/
structure Window where
  lower : Nat
  value : Nat
  upper : Nat
  closed : Bool

/-- Whether a point of the grid rounds to the window's number. -/
def Window.contains (w : Window) (x : Nat) : Bool :=
  if w.closed then w.lower ≤ x && x ≤ w.upper else w.lower < x && x < w.upper

/-- The multiple of `unit` inside the window that is next to the number, in units. Of two, the
nearer one. -/
def Window.multiple (w : Window) (unit : Nat) : Option Nat :=
  let k := w.value / unit
  let below := w.contains (k * unit)
  let above := w.contains ((k + 1) * unit)
  if below && above then
    some (if 2 * w.value ≤ (2 * k + 1) * unit then k else k + 1)
  else if below then some k
  else if above then some (k + 1)
  else none

/-- The first decimal grid from `exponent` down that meets the number `m * 2 ^ place`. -/
def firstGrid (m : Nat) (place : Int) : Nat → Int → Decimal
  | 0, exponent => ⟨0, exponent⟩
  | fuel + 1, exponent =>
    let ulp := twoTo place.toNat * tenTo (-exponent).toNat
    let unit := 4 * tenTo exponent.toNat * twoTo (-place).toNat
    let below := if m = twoTo 52 ∧ -1074 < place then 1 else 2
    let window : Window := ⟨(4 * m - below) * ulp, 4 * m * ulp, (4 * m + 2) * ulp, m % 2 == 0⟩
    match window.multiple unit with
    | some k => ⟨k, exponent⟩
    | none => firstGrid m place fuel (exponent - 1)

/-- The decimal number without the zeros at its end. -/
def Decimal.trimmed : Nat → Decimal → Decimal
  | 0, x => x
  | fuel + 1, x =>
    if x.digits ≠ 0 ∧ x.digits % 10 = 0 then trimmed fuel ⟨x.digits / 10, x.exponent + 1⟩ else x

/-- The shortest decimal number that reads back as the distance of `a` from zero. -/
def shortest (a : Binary64) : Decimal :=
  let n := a.value.num.natAbs
  let d := a.value.den
  if n = 0 then ⟨0, 0⟩
  else
    let place := lastPlace n d
    let m := nearestEven (n * twoTo (-place).toNat) (d * twoTo place.toNat)
    Decimal.trimmed 20 (firstGrid m place 20 (decimalExponent n d))

/-- The characters of a natural number. -/
def digitChars (n : Nat) : List Char := Nat.toDigits 10 n

/-- A decimal number in positional notation, with `whole` after a number without a fraction. -/
def positional (whole : List Char) (x : Decimal) : List Char :=
  let ds := digitChars x.digits
  if 0 ≤ x.exponent then ds ++ List.replicate x.exponent.toNat '0' ++ whole
  else
    let places := (-x.exponent).toNat
    if places < ds.length then
      ds.take (ds.length - places) ++ '.' :: ds.drop (ds.length - places)
    else '0' :: '.' :: (List.replicate (places - ds.length) '0' ++ ds)

/-- A decimal number in exponent notation: one digit before the point, and the sign of the exponent
always written for a large number. -/
def scientific (x : Decimal) : List Char :=
  let ds := digitChars x.digits
  let e := x.exponent + (ds.length : Int) - 1
  let mantissa := match ds with
    | first :: second :: rest => first :: '.' :: second :: rest
    | ds => ds
  mantissa ++ 'e' :: (if e < 0 then '-' :: digitChars e.natAbs else '+' :: digitChars e.natAbs)

/-- The minus sign of a number below zero. -/
def signChars (a : Binary64) : List Char := if a.value < 0 then ['-'] else []

/-- The number in positional notation, however large or small, without a fraction when it has
none. -/
def toPlain (a : Binary64) : String := .ofList (a.signChars ++ positional [] a.shortest)

/-- The distance from zero with a fraction: in positional notation from `1e-5` to below `1e16`,
where a whole number ends in `.0`, and in exponent notation outside. -/
def magnitudeChars (a : Binary64) : List Char :=
  let x := a.shortest
  let top := x.exponent + ((digitChars x.digits).length : Int)
  if x.digits = 0 ∨ (-4 ≤ top ∧ top ≤ 16) then positional ['.', '0'] x else scientific x

/-- The number with a fraction or an exponent. -/
def toFractional (a : Binary64) : String := .ofList (a.signChars ++ a.magnitudeChars)

end Binary64
end MessageCard
