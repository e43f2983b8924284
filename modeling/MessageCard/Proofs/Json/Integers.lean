import MessageCard.Proofs.Json.Outcome
import MessageCard.Proofs.Json.Spelling
import MessageCard.Proofs.Text.Words

/-!
# Integers in documents

An integer comes as a number or as a text, and each goes one of several ways: as an integer of 64
bits with or without a sign, as a double made from the digits of a document, as a double read from a
text. The ways meet at the ends of 64 bits. A number read digit by digit keeps the first digits that
fit 64 bits, with the power of ten of the others, so its double may differ from the nearest one; but
it is past an end where the number is, and that is all that counts after the ends are cut off.
-/
namespace MessageCard.Json

/-! ## Digits of a number -/

namespace NumberScan

/-- A scan of a number that has its digits one after the other, with no fraction or exponent yet. -/
def IsWhole (s : NumberScan) (negative : Bool) : Prop :=
  s.negative = negative ∧ s.isReal = false ∧ s.exponentNegative = false ∧ s.exponent = 0 ∧
    s.vanished = false

/-- A scan holds the digits of a number but for its last `cut` ones, which are left out because the
first of them did not fit any more. -/
structure Gathers (s : NumberScan) (negative : Bool) (n cut : Nat) : Prop where
  whole : s.IsWhole negative
  phase_eq : s.phase = .digits
  scale_eq : s.scale = cut
  full_iff : s.full = true ↔ 0 < cut
  le : s.significand ≤ largestSignificand
  large : 0 < cut → largestSignificand < s.significand * 10 + 9
  low : s.significand * 10 ^ cut ≤ n
  high : n < (s.significand + 1) * 10 ^ cut

theorem gathers_start (negative : Bool) {d : Nat} (hd : d ≤ 9) :
    ((start negative).addDigit d).Gathers negative d 0 := by
  have hfits : ¬(false = true ∨ largestSignificand < 0 * 10 + d) := by
    rintro (h | h)
    · cases h
    · rw [largestSignificand] at h
      omega
  have hadd : (start negative).addDigit d =
      ⟨negative, .digits, 0 * 10 + d, false, false, 0, false, 0, false⟩ := if_neg hfits
  rw [hadd, Nat.zero_mul, Nat.zero_add]
  exact {
    whole := ⟨rfl, rfl, rfl, rfl, rfl⟩
    phase_eq := rfl
    scale_eq := rfl
    full_iff := by simp
    le := hd.trans (by decide)
    large := fun h => absurd h (Nat.lt_irrefl 0)
    low := by rw [Nat.pow_zero, Nat.mul_one]
    high := by rw [Nat.pow_zero, Nat.mul_one]; exact Nat.lt_succ_self d }

/-- One more digit is gathered, or left out. -/
theorem Gathers.addDigit {s : NumberScan} {negative : Bool} {n cut d : Nat}
    (h : s.Gathers negative n cut) (hd : d ≤ 9) :
    ∃ cut, (s.addDigit d).Gathers negative (n * 10 + d) cut := by
  have hlow := h.low
  have hhigh := h.high
  by_cases hpast : s.full = true ∨ largestSignificand < s.significand * 10 + d
  · have hadd : s.addDigit d = { s with phase := .digits, full := true, scale := s.scale + 1 } :=
      if_pos hpast
    refine ⟨cut + 1, ?_⟩
    rw [hadd]
    exact {
      whole := h.whole
      phase_eq := rfl
      scale_eq := by simp [h.scale_eq]
      full_iff := by simp
      le := h.le
      large := fun _ => by
        rcases hpast with hfull | hlarge
        · exact h.large (h.full_iff.mp hfull)
        · exact hlarge.trans_le (Nat.add_le_add_left hd _)
      low := by
        rw [Nat.pow_succ, ← Nat.mul_assoc]
        dsimp only
        omega
      high := by
        rw [Nat.pow_succ, ← Nat.mul_assoc]
        dsimp only
        omega }
  · have hadd : s.addDigit d =
        { s with phase := .digits, significand := s.significand * 10 + d } := if_neg hpast
    obtain ⟨hfull, hfits⟩ := not_or.mp hpast
    obtain rfl : cut = 0 := Nat.eq_zero_of_not_pos (hfull ∘ h.full_iff.mpr)
    rw [Nat.pow_zero, Nat.mul_one] at hlow hhigh
    refine ⟨0, ?_⟩
    rw [hadd]
    exact {
      whole := h.whole
      phase_eq := rfl
      scale_eq := h.scale_eq
      full_iff := h.full_iff
      le := not_lt.mp hfits
      large := fun h => absurd h (Nat.lt_irrefl 0)
      low := by
        dsimp only
        omega
      high := by
        dsimp only
        omega }

theorem digit?_of_isDigit {c : Char} (hc : Decimal.isDigit c = true) :
    digit? c = some (c.toNat - 48) ∧ c.toNat - 48 ≤ 9 := by
  have hrange := Decimal.toNat_of_isDigit hc
  have hbounds : '0' ≤ c ∧ c ≤ '9' := by simpa [Decimal.isDigit] using hc
  exact ⟨if_pos hbounds, by omega⟩

theorem step_digit {s : NumberScan} {negative : Bool} {n cut : Nat} (h : s.Gathers negative n cut)
    {c : Char} (hc : Decimal.isDigit c = true) :
    s.step c = .continue (s.addDigit (c.toNat - 48)) := by
  rw [step, h.phase_eq, (digit?_of_isDigit hc).1]

end NumberScan

/-- Digits after the first of a number are gathered. -/
theorem exists_after?_digits (state : ReaderState) {ds : List Char} (hds : Decimal.IsDigits ds) :
    ∀ {scan : NumberScan} {negative : Bool} {n cut : Nat}, scan.Gathers negative n cut →
      ∃ last cut, { state with mode := .number scan }.after? ds =
          some { state with mode := .number last } ∧
        last.Gathers negative (ds.foldl (fun n c => n * 10 + (c.toNat - 48)) n) cut := by
  induction ds with
  | nil => exact fun h => ⟨_, _, rfl, h⟩
  | cons c rest ih =>
    intro scan negative n cut h
    obtain ⟨hc, hrest⟩ := List.forall_mem_cons.mp hds
    obtain ⟨next, hnext⟩ := h.addDigit (NumberScan.digit?_of_isDigit hc).2
    have hstep : { state with mode := .number scan }.step c =
        .ok { state with mode := .number (scan.addDigit (c.toNat - 48)) } := by
      simp only [ReaderState.step, NumberScan.step_digit h hc]
    rw [ReaderState.after?_cons_of_ok hstep]
    exact ih hrest hnext

/-! ## Numbers past 64 bits -/

/-- The product of two doubles between powers of two is a finite double, and as large as the lower
powers are together. -/
theorem mul_isHeld {x y : Binary64} {a b c d : Nat} (hx : 2 ^ a ≤ x.value) (hy : 2 ^ b ≤ y.value)
    (hx' : x.value ≤ 2 ^ c) (hy' : y.value ≤ 2 ^ d) (hcd : c + d < 1023) :
    JsonNumber.IsHeld (.real false (x * y)) ∧ 2 ^ (a + b) ≤ (x * y).value := by
  have hynonneg : 0 ≤ y.value := hy.trans' (by positivity)
  have hlow : (2 : Rat) ^ (a + b) ≤ x.value * y.value := by
    rw [pow_add]
    exact mul_le_mul hx hy (by positivity) (hx.trans' (by positivity))
  have hpos : 0 < x.value * y.value := hlow.trans_lt' (by positivity)
  have hhigh : x.value * y.value < 2 ^ (c + d + 1) :=
    calc x.value * y.value ≤ 2 ^ c * 2 ^ d := mul_le_mul hx' hy' hynonneg (by positivity)
      _ = 2 ^ (c + d) := (pow_add _ _ _).symm
      _ < 2 ^ (c + d + 1) := pow_lt_pow_right₀ one_lt_two (Nat.lt_succ_self _)
  rw [Binary64.mul_def]
  refine ⟨⟨Binary64.isDouble_round _, Binary64.round_nonneg hpos, ?_⟩, Binary64.pow_le_round hlow⟩
  rw [Binary64.overflows_eq_false_iff, abs_of_nonneg (Binary64.round_nonneg hpos)]
  exact (Binary64.round_le_pow hpos hhigh).trans_lt (pow_lt_pow_right₀ one_lt_two (by omega))

namespace NumberScan

/-- A significand with its power of ten is a finite double, and as large as the two factors are. -/
theorem exists_rescale {m k a b : Nat} (hlow : 2 ^ a ≤ m) (hhigh : m < 2 ^ 64)
    (hpow : 2 ^ b ≤ 10 ^ k) (hlt : m * 10 ^ k < tenTo 300) (ha : 60 ≤ a) :
    ∃ g, rescale 5 m k = some g ∧ JsonNumber.IsHeld (.real false g) ∧ 2 ^ (a + b) ≤ g.value := by
  have hfactor : 2 ^ 60 ≤ m := (Nat.pow_le_pow_right two_pos ha).trans hlow
  have hsmall : 10 ^ k < 2 ^ 940 := by
    have hbound : tenTo 300 < 2 ^ 1000 := by exact_mod_cast Decimal.tenTo_lt_two_pow
    refine Nat.lt_of_mul_lt_mul_left (a := 2 ^ 60) ?_
    calc 2 ^ 60 * 10 ^ k ≤ m * 10 ^ k := Nat.mul_le_mul_right _ hfactor
      _ < 2 ^ 1000 := hlt.trans hbound
      _ = 2 ^ 60 * 2 ^ 940 := by rw [← pow_add]
  have hplaces : k ≤ 308 := by
    by_contra hpast
    have hpowers : tenTo 300 ≤ tenTo k := tenTo_le_tenTo (by omega)
    exact hlt.not_ge
      (hpowers.trans (Nat.le_mul_of_pos_left _ ((Nat.two_pow_pos 60).trans_le hfactor)))
  have hmpos : (0 : Rat) < m := by exact_mod_cast (Nat.two_pow_pos 60).trans_le hfactor
  have hkpos : (0 : Rat) < tenTo k := by
    rw [Binary64.cast_tenTo]
    positivity
  obtain ⟨hheld, hvalue⟩ := mul_isHeld (x := (m : Binary64)) (y := powerOfTen k)
    (Binary64.pow_le_round (by exact_mod_cast hlow))
    (Binary64.pow_le_round (by rw [Binary64.cast_tenTo]; exact_mod_cast hpow))
    (Binary64.round_le_pow hmpos (k := 64) (by exact_mod_cast hhigh))
    (Binary64.round_le_pow hkpos (k := 940) (by rw [Binary64.cast_tenTo]; exact_mod_cast hsmall))
    (by decide)
  refine ⟨_, ?_, hheld, hvalue⟩
  rw [rescale, if_pos (by simpa using hplaces), if_pos (Int.natCast_nonneg k), Int.natAbs_natCast]
  simp only [hheld.2.2, Bool.false_eq_true, if_false]

end NumberScan

/-- A number held as a double past the ends goes to the end on its side. -/
theorem toInteger?_real_of_large {g : Binary64} {n : Nat} (hg : 2 ^ 63 ≤ g.value) (hn : 2 ^ 63 ≤ n)
    (negative : Bool) : (Json.number (.real negative g)).toInteger? =
      some (clampInt (Decimal.withSign negative n)) := by
  rw [toInteger?, clampInt_truncate_of_large hg hn]

namespace NumberScan

/-- A significand within the ends is held as an integer. -/
theorem finish_eq_integer {negative : Bool} (phase : NumberPhase) {m : Nat} (hm : 0 < m)
    (hfits : negative = true → m ≤ 2 ^ 63) :
    finish ⟨negative, phase, m, false, false, 0, false, 0, false⟩ =
      some (.integer (Decimal.withSign negative m)) := by
  cases negative
  · simp [finish, Decimal.withSign]
  · have hkept : ¬(m = 0 ∨ largestNegated < m) := by
      have hend := hfits rfl
      rw [largestNegated]
      omega
    simp [finish, hkept, Decimal.withSign]

/-- The number that is made of the digits of an integer stands for the integer. -/
theorem Gathers.finish {s : NumberScan} {negative : Bool} {n cut : Nat}
    (h : s.Gathers negative n cut) (hpos : 0 < n) (hn : n < tenTo 300) : ∃ x, s.finish = some x ∧
      x.IsHeld ∧ (Json.number x).toInteger? = some (clampInt (Decimal.withSign negative n)) := by
  obtain ⟨sign, phase, m, full, isReal, scale, exponentNegative, exponent, vanished⟩ := s
  obtain ⟨⟨rfl, rfl, rfl, rfl, rfl⟩, -, rfl, hfull, hle, hlarge, hlow, hhigh⟩ := h
  dsimp only [largestSignificand] at hfull hle hlarge hlow hhigh
  -- A significand past the ends, or with digits left out, is held as a double.
  have hreal : ∀ {a b : Nat}, 60 ≤ a → 63 ≤ a + b → 2 ^ a ≤ m → 2 ^ b ≤ 10 ^ cut →
      ∃ x, (rescale 5 m cut).map (JsonNumber.real sign) = some x ∧ x.IsHeld ∧
        (Json.number x).toInteger? = some (clampInt (Decimal.withSign sign n)) := by
    intro a b ha hab hm hcut
    obtain ⟨g, hg, hheld, hvalue⟩ :=
      exists_rescale hm (by omega) hcut (hlow.trans_lt hn) ha
    have hend : 2 ^ 63 ≤ n :=
      calc 2 ^ 63 ≤ 2 ^ (a + b) := Nat.pow_le_pow_right two_pos hab
        _ = 2 ^ a * 2 ^ b := pow_add _ _ _
        _ ≤ m * 10 ^ cut := Nat.mul_le_mul hm hcut
        _ ≤ n := hlow
    have hlarge : (2 : Rat) ^ 63 ≤ g.value :=
      (pow_le_pow_right₀ one_le_two hab).trans hvalue
    exact ⟨.real sign g, by rw [hg]; rfl, hheld, toInteger?_real_of_large hlarge hend sign⟩
  rcases Nat.eq_zero_or_pos cut with rfl | hcut
  · rw [pow_zero, mul_one] at hlow hhigh
    obtain rfl : m = n := by omega
    obtain rfl : full = false := by simpa using hfull
    by_cases hend : sign = true ∧ 2 ^ 63 < m
    · have hpast : sign = true ∧ (m = 0 ∨ largestNegated < m) := ⟨hend.1, .inr hend.2⟩
      simpa [NumberScan.finish, hpast] using
        hreal (a := 63) (b := 0) (by decide) (by decide) hend.2.le (by decide)
    · have hfits : sign = true → m ≤ 2 ^ 63 := by simpa using hend
      refine ⟨_, finish_eq_integer phase hpos hfits, ?_, rfl⟩
      cases sign
      · simp only [JsonNumber.IsHeld, Decimal.withSign, leastInt, Bool.false_eq_true, if_false]
        omega
      · have hm := hfits rfl
        simp only [JsonNumber.IsHeld, Decimal.withSign, leastInt, if_true]
        omega
  · obtain rfl : full = true := hfull.mpr hcut
    have hfactor : 2 ^ 60 ≤ m := by
      have := hlarge hcut
      omega
    have hplaces : 2 ^ 3 ≤ 10 ^ cut :=
      (by decide : 2 ^ 3 ≤ 10 ^ 1).trans (Nat.pow_le_pow_right (by decide) hcut)
    simpa [NumberScan.finish] using hreal (by decide) (by decide) hfactor hplaces

end NumberScan

theorem isHeld_zero (negative : Bool) : JsonNumber.IsHeld (.real negative 0) := by
  have hvalue : (0 : Binary64).value = 0 := rfl
  refine ⟨rfl, hvalue.ge, ?_⟩
  rw [Binary64.overflows_eq_false_iff, hvalue, abs_zero]
  positivity

/-- Zero with a minus sign is held as a double, which knows the sign. -/
theorem NumberScan.finish_minus_zero :
    finish { start true with phase := .zero } = some (.real true 0) := by
  have hproduct : ((0 : Nat) : Binary64) * powerOfTen 0 = 0 := by
    rw [Binary64.mul_def, show ((0 : Nat) : Binary64).value = 0 from rfl, zero_mul]
    rfl
  have hrescale : rescale 5 (0 : Nat) 0 = some 0 := by
    rw [rescale, if_pos (by decide), if_pos le_rfl, Int.natAbs_zero, hproduct]
    simp only [(isHeld_zero false).2.2, Bool.false_eq_true, if_false]
  simp only [finish, start, if_true, Bool.false_eq_true, if_false]
  simpa using hrescale

/-! ## Texts of integers -/

/-- An integer as a document writes it: digits with no zero before others, after a minus sign or
none. -/
inductive WritesInteger : Int → List Char → Prop
  | unsigned {ds : List Char} (ne_nil : ds ≠ []) (digits : Decimal.IsDigits ds)
    (zero : ds.head? = some '0' → ds = ['0']) : WritesInteger (Decimal.ofDigits ds) ds
  | minus {ds : List Char} (ne_nil : ds ≠ []) (digits : Decimal.IsDigits ds)
    (zero : ds.head? = some '0' → ds = ['0']) : WritesInteger (-Decimal.ofDigits ds) ('-' :: ds)

theorem NumberScan.step_first {c : Char} (hc : Decimal.isDigit c = true) (hne : c ≠ '0')
    (negative : Bool) :
    (start negative).step c = .continue ((start negative).addDigit (c.toNat - 48)) := by
  have hrange := Decimal.toNat_of_isDigit hc
  have hzero : c.toNat ≠ 48 := fun h => hne (Char.toNat_inj.mp h)
  obtain ⟨d, hd⟩ : ∃ d, c.toNat - 48 = d + 1 := ⟨c.toNat - 49, by omega⟩
  rw [step, (digit?_of_isDigit hc).1, hd]
  rfl

namespace ReaderState

theorem initial_step {c : Char} (hc : blankChars.contains c = false) :
    initial.step c = initial.startValue c := by
  simp only [step, initial, hc, afterComma, Bool.false_eq_true, and_false, if_false]

theorem initial_step_digit {c : Char} (hc : Decimal.isDigit c = true) (hne : c ≠ '0') :
    initial.step c =
      .ok { initial with mode := .number ((NumberScan.start false).addDigit (c.toNat - 48)) } := by
  have hblank : blankChars.contains c = false := by
    by_contra h
    rw [Bool.not_eq_false, List.contains_iff_mem] at h
    have hplain : ∀ d ∈ blankChars, Decimal.isDigit d = false := by
      simp [blankChars, Decimal.isDigit]
    rw [hplain c h] at hc
    cases hc
  rw [initial_step hblank]
  unfold startValue
  split
  -- No character that starts anything else is a digit.
  case h_8 => simp only [NumberScan.step_first hc hne]
  all_goals exact absurd hc (by decide)

end ReaderState

/-- Digits of which the first is not zero are a number that stands for what they write. -/
theorem exists_outcome?_digits {c : Char} {rest : List Char} (hc : Decimal.isDigit c = true)
    (hne : c ≠ '0') (hrest : Decimal.IsDigits rest) (hn : Decimal.ofDigits (c :: rest) < tenTo 300)
    (negative : Bool) : ∃ x, { ReaderState.initial with
      mode := .number ((NumberScan.start negative).addDigit (c.toNat - 48)) }.outcome? rest =
        some (.number x) ∧ x.IsHeld ∧ (Json.number x).toInteger? =
          some (clampInt (Decimal.withSign negative (Decimal.ofDigits (c :: rest)))) := by
  have hrange := Decimal.toNat_of_isDigit hc
  have hzero : c.toNat ≠ 48 := fun h => hne (Char.toNat_inj.mp h)
  obtain ⟨last, cut, hlast, hgathers⟩ := exists_after?_digits .initial hrest
    (NumberScan.gathers_start negative (d := c.toNat - 48) (by omega))
  have hdigits : rest.foldl (fun n c => n * 10 + (c.toNat - 48)) (c.toNat - 48) =
      Decimal.ofDigits (c :: rest) := by
    rw [Decimal.ofDigits, List.foldl_cons, Nat.zero_mul, Nat.zero_add]
  have hpos : 0 < Decimal.ofDigits (c :: rest) := by
    have happend := Decimal.ofDigits_append [c] rest
    have hone : 0 < Decimal.ofDigits [c] := by
      rw [Decimal.ofDigits, List.foldl_cons, List.foldl_nil]
      omega
    rw [List.singleton_append] at happend
    rw [happend]
    positivity
  rw [hdigits] at hgathers
  obtain ⟨x, hx, hheld, hinteger⟩ := hgathers.finish hpos hn
  refine ⟨x, ?_, hheld, hinteger⟩
  rw [ReaderState.outcome?, hlast, Option.bind_some, ReaderState.finish]
  simp only [NumberScan.mayEnd, hgathers.phase_eq, hx, if_true]
  rfl

/-- An integer in a document is read as a number that stands for the nearest integer of 64 bits. -/
theorem WritesInteger.exists_ofChars {n : Int} {text : List Char} (h : WritesInteger n text)
    (hn : n.natAbs < tenTo 300) : ∃ x, ofChars text = .ok (.number x) ∧ x.IsHeld ∧
      (Json.number x).toInteger? = some (clampInt n) := by
  cases h with
  | @unsigned ds hne hds hzero =>
    obtain ⟨c, rest, rfl⟩ := List.exists_cons_of_ne_nil hne
    obtain ⟨hc, hrest⟩ := List.forall_mem_cons.mp hds
    by_cases hfirst : c = '0'
    · rw [hzero (congrArg some hfirst)]
      exact ⟨.integer 0, rfl, ⟨by decide, by decide⟩, rfl⟩
    · obtain ⟨x, hx, hstands⟩ := exists_outcome?_digits hc hfirst hrest hn false
      refine ⟨x, ofChars_eq_ok_iff.mpr ?_, hstands⟩
      rw [← hx, ReaderState.outcome?, ReaderState.outcome?,
        ReaderState.after?_cons_of_ok (ReaderState.initial_step_digit hc hfirst)]
  | @minus ds hne hds hzero =>
    obtain ⟨c, rest, rfl⟩ := List.exists_cons_of_ne_nil hne
    obtain ⟨hc, hrest⟩ := List.forall_mem_cons.mp hds
    by_cases hfirst : c = '0'
    · rw [hzero (congrArg some hfirst)]
      refine ⟨.real true 0, ofChars_eq_ok_iff.mpr ?_, isHeld_zero true, rfl⟩
      have hafter : ReaderState.initial.after? ['-', '0'] = some { ReaderState.initial with
        mode := .number { NumberScan.start true with phase := .zero } } := rfl
      rw [ReaderState.outcome?, hafter, Option.bind_some, ReaderState.finish]
      simp only [NumberScan.mayEnd, NumberScan.finish_minus_zero, if_true]
      rfl
    · rw [Int.natAbs_neg, Int.natAbs_natCast] at hn
      obtain ⟨x, hx, hstands⟩ := exists_outcome?_digits hc hfirst hrest hn true
      have hminus : ReaderState.initial.step '-' =
          .ok { ReaderState.initial with mode := .number (.start true) } := rfl
      have hdigit : { ReaderState.initial with mode := .number (.start true) }.step c =
          .ok { ReaderState.initial with
            mode := .number ((NumberScan.start true).addDigit (c.toNat - 48)) } := by
        simp only [ReaderState.step, NumberScan.step_first hc hfirst]
      refine ⟨x, ofChars_eq_ok_iff.mpr ?_, hstands⟩
      rw [← hx, ReaderState.outcome?, ReaderState.outcome?, ReaderState.after?_cons_of_ok hminus,
        ReaderState.after?_cons_of_ok hdigit]

/-! ## The ways to an integer -/

end Json

namespace JsonNumber

/-- The number as a signed integer of 64 bits, if it is one. -/
def signed? : JsonNumber → Option Int
  | .integer i => if leastInt ≤ i ∧ i ≤ greatestInt then some i else none
  | .real _ _ => none

/-- The integer that a number stands for: itself as a signed integer of 64 bits, or else the whole
part of the double nearest to it, if that is finite. -/
def coerce? (x : JsonNumber) : Option Int :=
  x.signed?.or <|
    if x.toBinary64.overflows then none else some (clampInt x.toBinary64.truncate)

/-- What an integer is held as where it is rounded correctly: an integer of 64 bits, with or without
a sign, or else the nearest double. -/
def nearest (n : Int) : JsonNumber :=
  if leastInt ≤ n ∧ n < 2 ^ 64 then .integer n
  else .real (decide (n < 0)) (.round n.natAbs)

/-- An integer without a sign past the signed ones goes the way through a double, and so to the
same end. -/
theorem coerce?_eq {x : JsonNumber} (hx : x.IsHeld) : x.coerce? = (Json.number x).toInteger? := by
  cases x with
  | integer i =>
    by_cases hsigned : leastInt ≤ i ∧ i ≤ greatestInt
    · simp only [coerce?, signed?, if_pos hsigned, Option.some_or, Json.toInteger?,
        Json.clampInt_of_mem hsigned]
    · obtain ⟨n, rfl⟩ : ∃ n : Nat, i = n := ⟨i.toNat, by
        simp only [IsHeld, leastInt, greatestInt] at hx hsigned
        omega⟩
      have hlow : 2 ^ 63 ≤ n := by
        simp only [leastInt, greatestInt] at hsigned
        omega
      have hround := Decimal.overflows_round_of_lt (by omega) hx.natAbs_lt
      have hlarge := Json.clampInt_truncate_round hlow false
      rw [Int.natAbs_natCast] at hround
      simp only [if_false, Bool.false_eq_true] at hlarge
      have hdouble : (JsonNumber.integer n).toBinary64 = Binary64.round n := rfl
      simp only [coerce?, signed?, if_neg hsigned, Option.none_or, hdouble, hround, hlarge,
        Bool.false_eq_true, if_false, Json.toInteger?, Decimal.withSign]
  | real negative m =>
    have hfinite : (JsonNumber.real negative m).toBinary64.overflows = false := by
      have hm := hx.2.2
      rw [Binary64.overflows_eq_false_iff] at hm ⊢
      cases negative
      · exact hm
      · rwa [toBinary64, Binary64.neg_value, abs_neg]
    simp only [coerce?, signed?, Option.none_or, hfinite, Bool.false_eq_true, if_false,
      Json.toInteger?]
    cases negative
    · rfl
    · rw [toBinary64, Binary64.truncate_neg, if_pos rfl]

/-- An integer that is rounded correctly stands for the nearest integer of 64 bits. -/
theorem nearest_stands {n : Int} (hn : n.natAbs < tenTo 300) :
    (nearest n).IsHeld ∧ (Json.number (nearest n)).toInteger? = some (clampInt n) := by
  rw [nearest]
  split
  · next h => exact ⟨h, rfl⟩
  · next h =>
    have hlarge : 2 ^ 63 ≤ n.natAbs := by
      rw [leastInt] at h
      omega
    have hpos : (0 : Rat) < n.natAbs := by exact_mod_cast (Nat.two_pow_pos 63).trans_le hlarge
    have hsign : Decimal.withSign (decide (n < 0)) n.natAbs = n := by
      simp only [Decimal.withSign, decide_eq_true_eq]
      split <;> omega
    refine ⟨⟨Binary64.isDouble_round _, Binary64.round_nonneg hpos,
      Decimal.overflows_round_of_lt (by omega) hn⟩, ?_⟩
    rw [Json.toInteger?_real_of_large (Binary64.pow_le_round (by exact_mod_cast hlarge)) hlarge,
      hsign]

end JsonNumber

namespace Decimal

/-- Digits that write an integer, after a sign or none. -/
inductive Writes : Int → List Char → Prop
  | unsigned {ds : List Char} (ne_nil : ds ≠ []) (digits : IsDigits ds) : Writes (ofDigits ds) ds
  | plus {ds : List Char} (ne_nil : ds ≠ []) (digits : IsDigits ds) :
    Writes (ofDigits ds) ('+' :: ds)
  | minus {ds : List Char} (ne_nil : ds ≠ []) (digits : IsDigits ds) :
    Writes (-ofDigits ds) ('-' :: ds)

theorem Writes.readInt?_eq {n : Int} {s : List Char} (h : Writes n s) : readInt? s = some n := by
  cases h with
  | unsigned hne hds =>
    obtain ⟨c, rest, rfl⟩ := List.exists_cons_of_ne_nil hne
    exact readInt?_of_splitSign (splitSign_of_isDigit (hds c List.mem_cons_self) rest) hne hds
  | plus hne hds => exact readInt?_of_splitSign rfl hne hds
  | minus hne hds => exact readInt?_of_splitSign rfl hne hds

theorem Writes.not_blank {n : Int} {s : List Char} (h : Writes n s) :
    ∀ c ∈ s, isBlank c = false := by
  cases h with
  | unsigned hne hds => exact fun c hc => isBlank_of_isDigit (hds c hc)
  | plus hne hds =>
    exact List.forall_mem_cons.mpr ⟨by decide, fun c hc => isBlank_of_isDigit (hds c hc)⟩
  | minus hne hds =>
    exact List.forall_mem_cons.mpr ⟨by decide, fun c hc => isBlank_of_isDigit (hds c hc)⟩

end Decimal

namespace Json

theorem tenTo_eq (n : Nat) : tenTo n = 10 ^ n := rfl

theorem clampInt_eq (n : Int) : clampInt n = max (-2 ^ 63) (min n (2 ^ 63 - 1)) := rfl

/-- An integer that is not too large for a double stands for the nearest signed integer of 64 bits,
whichever way it is given: as a number of a document, read digit by digit or rounded correctly, or
as a text with a sign or none, zeros before it and white space around it. -/
theorem integers_saturate_alike {n : Int} (hn : n.natAbs < 10 ^ 300) :
    (∀ text, WritesInteger n text → ∃ x : JsonNumber, ofChars text = .ok (.number x) ∧
      x.coerce? = some (max (-2 ^ 63) (min n (2 ^ 63 - 1))) ∧
      (number x).toInteger? = some (max (-2 ^ 63) (min n (2 ^ 63 - 1)))) ∧
    ((JsonNumber.nearest n).coerce? = some (max (-2 ^ 63) (min n (2 ^ 63 - 1))) ∧
      (number (.nearest n)).toInteger? = some (max (-2 ^ 63) (min n (2 ^ 63 - 1)))) ∧
    ∀ before s ending, (∀ c ∈ before, isBlank c = true) → Decimal.Writes n s →
      (∀ c ∈ ending, isBlank c = true) →
      (string (String.ofList (before ++ (s ++ ending)))).toInteger? =
        some (max (-2 ^ 63) (min n (2 ^ 63 - 1))) := by
  rw [← tenTo_eq] at hn
  simp only [← clampInt_eq]
  refine ⟨fun text htext => ?_, ?_, fun before s ending hbefore hs hending => ?_⟩
  · obtain ⟨x, hx, hheld, hinteger⟩ := htext.exists_ofChars hn
    exact ⟨x, hx, (JsonNumber.coerce?_eq hheld).trans hinteger, hinteger⟩
  · obtain ⟨hheld, hinteger⟩ := JsonNumber.nearest_stands hn
    exact ⟨(JsonNumber.coerce?_eq hheld).trans hinteger, hinteger⟩
  · have htrim : trim (before ++ (s ++ ending)) = s :=
      (trim_between_blanks s hbefore hending).trans (trim_eq_self hs.not_blank)
    rw [toInteger?, String.toList_ofList]
    exact integerOfText?_of_readInt? (htrim.symm ▸ hs.readInt?_eq) hn

/-- The same least integer comes of a number below all signed integers of 64 bits and of a text of
it. -/
theorem integers_saturate_alike_below_least :
    (∃ x : JsonNumber, ofText "-10000000000000000000000" = .ok (.number x) ∧
      x.coerce? = some (-9223372036854775808)) ∧
    (string "\u3000-0010000000000000000000000 ").toInteger? = some (-9223372036854775808) := by
  have hn : (-10000000000000000000000 : Int).natAbs < 10 ^ 300 := by
    rw [← tenTo_eq]
    exact (show _ < tenTo 23 by decide).trans_le (tenTo_le_tenTo (by decide))
  obtain ⟨hnumber, -, htext⟩ := integers_saturate_alike hn
  constructor
  · have hdigits : Decimal.IsDigits "10000000000000000000000".toList := by decide
    obtain ⟨x, hx, hcoerce, -⟩ := hnumber "-10000000000000000000000".toList
      (.minus (by decide) hdigits (by decide))
    exact ⟨x, hx, hcoerce⟩
  · have hdigits : Decimal.IsDigits "0010000000000000000000000".toList := by decide
    exact htext ['\u3000'] "-0010000000000000000000000".toList [' '] (by simp [isBlank])
      (.minus (by decide) hdigits) (by simp [isBlank])

end Json
end MessageCard
