import MessageCard.Json.Integer
import MessageCard.Json.Writer
import MessageCard.Proofs.Text.Decimal

/-!
# Numbers and their texts

A number may be given as such or as a text. Both stand for the same integer, the one of 64 bits that
is nearest to the number without its fraction. A text with a whole number in the range of these
integers is read digit by digit, and one outside goes through a double, which is outside as well. A
text with a real number is read as the double that it was written for.
-/
namespace MessageCard

/-- A number as it is held: an integer of 64 bits, with or without a sign, or a finite double. -/
def JsonNumber.IsHeld : JsonNumber → Prop
  | .integer i => leastInt ≤ i ∧ i < 2 ^ 64
  | .real _ m => m.IsDouble ∧ 0 ≤ m.value ∧ m.overflows = false

theorem tenTo_le_tenTo {m n : Nat} (h : m ≤ n) : tenTo m ≤ tenTo n :=
  Nat.pow_le_pow_right (by decide) h

theorem JsonNumber.IsHeld.natAbs_lt {i : Int} (h : (JsonNumber.integer i).IsHeld) :
    i.natAbs < tenTo 300 := by
  obtain ⟨hlow, hhigh⟩ := h
  rw [leastInt] at hlow
  calc i.natAbs < tenTo 20 := by
        rw [show tenTo 20 = 100000000000000000000 from rfl]
        omega
    _ ≤ tenTo 300 := tenTo_le_tenTo (by decide)

namespace Binary64

theorem truncate_neg (a : Binary64) : (-a).truncate = -a.truncate := by
  simp [truncate, Int.neg_tdiv]

theorem le_truncate {a : Binary64} {i : Int} (hi : 0 ≤ i) (h : i ≤ a.value) : i ≤ a.truncate := by
  have hnum : 0 ≤ a.value.num := Rat.num_nonneg.mpr ((Int.cast_nonneg hi).trans h)
  rw [truncate, Int.tdiv_eq_ediv_of_nonneg hnum, ← Rat.floor_def, Rat.le_floor_iff]
  exact h

end Binary64

/-! ## Standing for an integer -/

namespace Json

theorem clampInt_of_mem {i : Int} (h : leastInt ≤ i ∧ i ≤ greatestInt) : clampInt i = i := by
  rw [clampInt]
  omega

/-- Past the ends a whole number and any double go to the same end. -/
theorem clampInt_truncate_of_large {a : Binary64} {n : Nat} (ha : 2 ^ 63 ≤ a.value)
    (hn : 2 ^ 63 ≤ n) (negative : Bool) : clampInt (if negative then -a.truncate else a.truncate) =
      clampInt (Decimal.withSign negative n) := by
  have htruncate : (2 ^ 63 : Int) ≤ a.truncate :=
    Binary64.le_truncate (by decide) (by exact_mod_cast ha)
  cases negative <;> simp only [Decimal.withSign, clampInt, leastInt, greatestInt, if_true,
    if_false, Bool.false_eq_true] <;> omega

/-- Past the ends a whole number and the double nearest to it go to the same end. -/
theorem clampInt_truncate_round {n : Nat} (hn : 2 ^ 63 ≤ n) (negative : Bool) :
    clampInt (if negative then -Binary64.round n else Binary64.round n).truncate =
      clampInt (Decimal.withSign negative n) := by
  have hround := Binary64.pow_le_round (x := n) (k := 63) (by exact_mod_cast hn)
  rw [apply_ite Binary64.truncate, Binary64.truncate_neg]
  exact clampInt_truncate_of_large hround hn negative

/-- A text that writes a whole number stands for the nearest integer of 64 bits. -/
theorem integerOfText?_of_readInt? {s : List Char} {i : Int}
    (hs : Decimal.readInt? (trim s) = some i) (hi : i.natAbs < tenTo 300) :
    integerOfText? s = some (clampInt i) := by
  by_cases hrange : leastInt ≤ i ∧ i ≤ greatestInt
  · simp [integerOfText?, hs, hrange, clampInt_of_mem hrange]
  · obtain ⟨negative, n, rfl, hreal⟩ := Decimal.readReal?_of_readInt? hs hi
    have hpast : 2 ^ 63 ≤ n := by
      cases negative <;> simp only [Decimal.withSign, leastInt, greatestInt] at hrange <;> omega
    simp only [integerOfText?, hs, hreal, clampInt_truncate_round hpast, Option.filter_some, hrange,
      decide_false, Bool.false_eq_true, if_false, Option.none_or]

theorem trim_eq_self {s : List Char} (h : ∀ c ∈ s, isBlank c = false) : trim s = s := by
  have hdrop : ∀ t : List Char, (∀ c ∈ t, isBlank c = false) → t.dropWhile isBlank = t := by
    intro t ht
    cases t with
    | nil => rfl
    | cons c t => simp [ht c List.mem_cons_self]
  have hreverse : ∀ c ∈ s.reverse, isBlank c = false := fun c hc => h c (List.mem_reverse.mp hc)
  rw [trim, trimStart, hdrop s h, trimEnd, hdrop _ hreverse, List.reverse_reverse]

/-! ## Written numbers -/

theorem splitSign_writeNumber_integer (i : Int) : Decimal.splitSign (writeNumber (.integer i)) =
    (decide (i < 0), Nat.toDigits 10 i.natAbs) := by
  obtain ⟨c, rest, hdigits, hc⟩ := Decimal.exists_toDigits i.natAbs
  rw [writeNumber, Binary64.digitChars, hdigits]
  split
  · next h => simp [Decimal.splitSign, h]
  · next h => simp [Decimal.splitSign_of_isDigit hc, h]

theorem splitSign_writeNumber_real (negative : Bool) (m : Binary64) :
    Decimal.splitSign (writeNumber (.real negative m)) = (negative, m.magnitudeChars) := by
  obtain ⟨c, rest, htext, hc⟩ := (Decimal.isRealText_magnitudeChars m).head
  rw [writeNumber, htext]
  cases negative
  · exact Decimal.splitSign_of_isDigit hc rest
  · rfl

/-- The text of a whole number is read back. -/
theorem readInt?_writeNumber (i : Int) :
    Decimal.readInt? (writeNumber (.integer i)) = some i := by
  rw [Decimal.readInt?_toDigits (splitSign_writeNumber_integer i), Decimal.withSign]
  split
  · next h =>
    rw [decide_eq_true_eq] at h
    rw [Int.ofNat_natAbs_of_nonpos h.le, neg_neg]
  · next h =>
    rw [decide_eq_true_eq, not_lt] at h
    rw [Int.natAbs_of_nonneg h]

/-- The text of a double is read back. -/
theorem readReal?_writeNumber {negative : Bool} {m : Binary64}
    (h : JsonNumber.IsHeld (.real negative m)) : Decimal.readReal? (writeNumber (.real negative m)) =
      some (.finite (if negative then -m else m)) := by
  obtain ⟨hm, hnonneg, hfinite⟩ := h
  have hread := Decimal.readMagnitude?_magnitudeChars hm hnonneg hfinite
  have hsplit := splitSign_writeNumber_real negative m
  obtain ⟨c, rest, htext, hc⟩ := (Decimal.isRealText_magnitudeChars m).head
  rw [htext] at hread hsplit
  exact Decimal.readReal?_of_splitSign hsplit hc hread

/-- There is no white space in numbers. -/
theorem trim_writeNumber (n : JsonNumber) : trim (writeNumber n) = writeNumber n := by
  refine trim_eq_self fun c hc => ?_
  have hsign : ∀ b : Bool, c ∈ (if b then ['-'] else []) → isBlank c = false := by
    rintro (_ | _) h
    · cases h
    · rw [List.mem_singleton.mp h]
      decide
  cases n with
  | integer i =>
    rcases List.mem_append.mp hc with h | h
    · exact hsign (decide (i < 0)) (by simpa using h)
    · exact Decimal.isBlank_of_isDigit (Decimal.isDigits_toDigits _ c h)
  | real negative m =>
    rcases List.mem_append.mp hc with h | h
    · exact hsign negative h
    · exact (Decimal.isRealText_magnitudeChars m).solid c h

/-- A number and its text stand for the same integer. -/
theorem toInteger?_toText {n : JsonNumber} (h : n.IsHeld) :
    (Json.string (Json.number n).toText).toInteger? = (Json.number n).toInteger? := by
  have htext : (Json.number n).toText.toList = writeNumber n := String.toList_ofList
  rw [toInteger?, htext]
  cases n with
  | integer i =>
    have hread := readInt?_writeNumber i
    rw [← trim_writeNumber] at hread
    exact integerOfText?_of_readInt? hread h.natAbs_lt
  | real negative m =>
    have hnone := Decimal.readInt?_of_isRealText (splitSign_writeNumber_real negative m)
      (Decimal.isRealText_magnitudeChars m)
    have hreal := readReal?_writeNumber h
    simp only [toInteger?, integerOfText?, trim_writeNumber, hnone, hreal, Option.filter_none,
      Option.none_or]
    cases negative with
    | false => rfl
    | true => simp only [if_true, Binary64.truncate_neg]

end Json
end MessageCard
