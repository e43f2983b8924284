import MessageCard.Binary64

/-!
# Decimal numbers in text

A whole number is an optional sign and digits. A real number may have a point, with digits on at
least one side of it, and an exponent; the words for infinity and for no number, in any case, are
real numbers too, though not finite ones.
-/
namespace MessageCard

/-- The least integer of 64 bits. -/
def leastInt : Int := -9223372036854775808

/-- The greatest integer of 64 bits. -/
def greatestInt : Int := 9223372036854775807

/-- A real number that a text may hold. -/
inductive RealText where
  /-- A finite number, with the sign that it was written with. -/
  | finite (value : Binary64)
  | notFinite
  deriving DecidableEq

namespace Decimal

/-- A sign at the start of a text, and the rest. -/
def splitSign : List Char → Bool × List Char
  | '-' :: rest => (true, rest)
  | '+' :: rest => (false, rest)
  | s => (false, s)

def isDigit (c : Char) : Bool := '0' ≤ c && c ≤ '9'

/-- The number that digits write. -/
def ofDigits (ds : List Char) : Nat := ds.foldl (fun n c => n * 10 + (c.toNat - 48)) 0

/-- The whole number that a text writes. -/
def readInt? (s : List Char) : Option Int :=
  let (negative, digits) := splitSign s
  if digits = [] ∨ digits.any (!isDigit ·) then none
  else some (if negative then -ofDigits digits else ofDigits digits)

/-- The double nearest to `digits * 10 ^ exponent`; nothing when that is too large. -/
def toBinary64? (digits : Nat) (exponent : Int) : Option Binary64 :=
  let top := exponent + ((Nat.toDigits 10 digits).length : Int)
  if digits = 0 ∨ top < -400 then some 0
  else if 400 < top then none
  else
    let x : Rat := if 0 ≤ exponent then ((digits * tenTo exponent.toNat : Nat) : Rat)
      else mkRat digits (tenTo (-exponent).toNat)
    let a := Binary64.round x
    if a.overflows then none else some a

/-- The exponent at the end of a real number; an absent one is zero. -/
def readExponent? : List Char → Option Int
  | [] => some 0
  | c :: rest => if c = 'e' ∨ c = 'E' then readInt? rest else none

/-- The finite number that an unsigned text writes. -/
def readMagnitude? (s : List Char) : Option (Option Binary64) :=
  let whole := s.takeWhile isDigit
  let rest := s.dropWhile isDigit
  let (fraction, rest) := match rest with
    | '.' :: rest => (rest.takeWhile isDigit, rest.dropWhile isDigit)
    | rest => ([], rest)
  if whole = [] ∧ fraction = [] then none
  else (readExponent? rest).map fun e =>
    toBinary64? (ofDigits (whole ++ fraction)) (e - (fraction.length : Int))

/-- The real number that a text writes. -/
def readReal? (s : List Char) : Option RealText :=
  let (negative, body) := splitSign s
  let word := String.ofList (body.map Char.toLower)
  if word = "inf" ∨ word = "infinity" ∨ word = "nan" then some .notFinite
  else (readMagnitude? body).map fun
    | some a => .finite (if negative then -a else a)
    | none => .notFinite

end Decimal
end MessageCard
