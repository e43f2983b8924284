import MessageCard.Json

/-!
# Reading numbers digit by digit

A number is read one character at a time. Its digits are gathered into a 64-bit significand; digits
that do not fit any more only move the decimal point. A number without fraction and exponent that
fits 64 bits is an integer. Any other is the significand, rounded to a double, times or over a power
of ten, rounded again.
-/
namespace MessageCard.Json

/-- Which character a number may go on with. -/
inductive NumberPhase where
  | sign
  | zero
  | digits
  | point
  | fraction
  | exponentMark
  | exponentSign
  | exponent
  deriving DecidableEq

/-- A number in the making. -/
structure NumberScan where
  negative : Bool
  phase : NumberPhase
  significand : Nat
  /-- Whether further digits are left out of the significand. -/
  full : Bool
  /-- Whether a fraction or an exponent was seen. -/
  isReal : Bool
  /-- The power of ten that the significand stands for. -/
  scale : Int
  exponentNegative : Bool
  exponent : Nat
  /-- Whether the exponent is so large that the number is zero. -/
  vanished : Bool

/-- What is wrong with a number. -/
inductive NumberFault where
  | invalid
  | outOfRange
  deriving DecidableEq

/-- What a character does to a number. -/
inductive NumberStep where
  | continue (scan : NumberScan)
  /-- The character does not belong to the number, which is complete. -/
  | complete
  | fault (kind : NumberFault)

namespace NumberScan

/-- The largest number of 64 bits, past which digits no longer count. -/
def largestSignificand : Nat := 18446744073709551615

/-- The largest exponent, of 31 bits. -/
def largestExponent : Nat := 2147483647

/-- The distance of the least integer of 64 bits from zero. -/
def largestNegated : Nat := 9223372036854775808

/-- The scan before its first digit. -/
def start (negative : Bool) : NumberScan :=
  ⟨negative, .sign, 0, false, false, 0, false, 0, false⟩

def digit? (c : Char) : Option Nat :=
  if '0' ≤ c ∧ c ≤ '9' then some (c.toNat - 48) else none

/-- A digit before the point. -/
def addDigit (s : NumberScan) (d : Nat) : NumberScan :=
  if s.full ∨ largestSignificand < s.significand * 10 + d then
    { s with phase := .digits, full := true, scale := s.scale + 1 }
  else { s with phase := .digits, significand := s.significand * 10 + d }

/-- A digit after the point. -/
def addFraction (s : NumberScan) (d : Nat) : NumberScan :=
  if s.full ∨ largestSignificand < s.significand * 10 + d then
    { s with phase := .fraction, full := true }
  else { s with phase := .fraction, significand := s.significand * 10 + d, scale := s.scale - 1 }

/-- A digit of the exponent. -/
def addExponent (s : NumberScan) (d : Nat) : NumberStep :=
  if s.vanished then .continue s
  else if largestExponent < s.exponent * 10 + d then
    if s.significand ≠ 0 ∧ s.exponentNegative = false then .fault .outOfRange
    else .continue { s with phase := .exponent, vanished := true }
  else .continue { s with phase := .exponent, exponent := s.exponent * 10 + d }

/-- The number after one more character. -/
def step (s : NumberScan) (c : Char) : NumberStep :=
  let point := NumberStep.continue { s with phase := .point, full := false, isReal := true }
  let mark := NumberStep.continue { s with phase := .exponentMark, isReal := true }
  match s.phase, digit? c with
  | .sign, some 0 => .continue { s with phase := .zero }
  | .sign, some d => .continue (s.addDigit d)
  | .sign, none => .fault .invalid
  | .zero, some _ => .fault .invalid
  | .digits, some d => .continue (s.addDigit d)
  | .zero, none | .digits, none =>
    if c = '.' then point else if c = 'e' ∨ c = 'E' then mark else .complete
  | .point, some d => .continue (s.addFraction d)
  | .point, none => .fault .invalid
  | .fraction, some d => .continue (s.addFraction d)
  | .fraction, none => if c = 'e' ∨ c = 'E' then mark else .complete
  | .exponentMark, some d => s.addExponent d
  | .exponentMark, none =>
    if c = '+' then .continue { s with phase := .exponentSign }
    else if c = '-' then .continue { s with phase := .exponentSign, exponentNegative := true }
    else .fault .invalid
  | .exponentSign, some d => s.addExponent d
  | .exponentSign, none => .fault .invalid
  | .exponent, some d => s.addExponent d
  | .exponent, none => .complete

/-- Whether the number may end here. -/
def mayEnd (s : NumberScan) : Bool :=
  match s.phase with
  | .zero | .digits | .fraction | .exponent => true
  | _ => false

/-- The double of a power of ten. -/
def powerOfTen (n : Nat) : Binary64 := .round (tenTo n : Rat)

/-- A double times a power of ten, in steps of at most 308 decimal places; nothing when the result
is too large. -/
def rescale : Nat → Binary64 → Int → Option Binary64
  | 0, _, _ => some 0
  | fuel + 1, f, scale =>
    if scale.natAbs ≤ 308 then
      if 0 ≤ scale then
        let g := f * powerOfTen scale.natAbs
        if g.overflows then none else some g
      else some (f / powerOfTen scale.natAbs)
    else if f = 0 then some 0
    else if 0 ≤ scale then none
    else rescale fuel (f / powerOfTen 308) (scale + 308)

/-- The number read; nothing when it is too large for a double. -/
def finish (s : NumberScan) : Option JsonNumber :=
  let exponent : Int := if s.exponentNegative then -s.exponent else s.exponent
  if s.isReal ∨ s.full ∨ (s.negative ∧ (s.significand = 0 ∨ largestNegated < s.significand)) then
    if s.vanished then some (.real s.negative 0)
    else (rescale 5 s.significand (s.scale + exponent)).map (.real s.negative)
  else if s.negative then some (.integer (-s.significand))
  else some (.integer s.significand)

end NumberScan
end MessageCard.Json
