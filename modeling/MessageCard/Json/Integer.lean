import MessageCard.Json
import MessageCard.Text.Blank
import MessageCard.Text.Decimal

/-!
# Integers from JSON values of any kind

Producers write numbers as numbers or as strings. Both are taken, fractions are cut off, and values
out of the range of 64 bits go to its ends. Any other value counts as absent, so that one bad number
never spoils a document.
-/
namespace MessageCard

/-- The nearest integer of 64 bits. -/
def clampInt (i : Int) : Int := max leastInt (min i greatestInt)

namespace Json

/-- The integer that a text writes: a whole number of 64 bits, or else the whole part of a finite
real number. -/
def integerOfText? (s : List Char) : Option Int :=
  let s := trim s
  let whole := (Decimal.readInt? s).filter fun i => leastInt ≤ i ∧ i ≤ greatestInt
  whole.or <| match Decimal.readReal? s with
    | some (.finite a) => some (clampInt a.truncate)
    | _ => none

/-- The integer that a value stands for. -/
def toInteger? : Json → Option Int
  | .string s => integerOfText? s.toList
  | .number (.integer i) => some (clampInt i)
  | .number (.real negative m) => some (clampInt (if negative then -m.truncate else m.truncate))
  | _ => none

/-- The integer that a value stands for, or zero. -/
def toIntegerOrZero (j : Json) : Int := j.toInteger?.getD 0

end Json
end MessageCard
