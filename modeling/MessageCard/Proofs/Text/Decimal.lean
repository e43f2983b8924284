import Mathlib.Data.List.TakeWhile
import MessageCard.Proofs.Binary64.Shortest
import MessageCard.Text.Blank
import MessageCard.Text.Decimal

/-!
# Reading decimal numbers

Digits with a sign are read as the whole number that they write. Digits around a point, with or
without an exponent, are read as the double nearest to the number that they write, as long as it is
within the range of doubles. So what is written for a double, the shortest number that is rounded to
it, is read as that double.
-/
namespace MessageCard.Decimal

/-! ## Digits -/

theorem ofDigits_eq (ds : List Char) : ofDigits ds = Nat.ofDigitChars 10 ds 0 := by
  simp only [ofDigits, Nat.ofDigitChars_eq_foldl, Nat.mul_comm 10]
  rfl

theorem ofDigits_toDigits (n : Nat) : ofDigits (Nat.toDigits 10 n) = n := by
  rw [ofDigits_eq, Nat.ofDigitChars_ten_toDigits]

theorem ofDigits_append (a b : List Char) :
    ofDigits (a ++ b) = ofDigits a * 10 ^ b.length + ofDigits b := by
  rw [ofDigits_eq, Nat.ofDigitChars_append, Nat.ofDigitChars_eq_ofDigitChars_zero, ← ofDigits_eq,
    ← ofDigits_eq, Nat.mul_comm]

theorem ofDigits_zeros (n : Nat) : ofDigits (List.replicate n '0') = 0 := by
  rw [ofDigits_eq, Nat.ofDigitChars_replicate_zero, Nat.mul_zero]

/-- A text of digits. -/
def IsDigits (s : List Char) : Prop := ∀ c ∈ s, isDigit c = true

instance (s : List Char) : Decidable (IsDigits s) :=
  decidable_of_iff (s.all isDigit = true) List.all_eq_true

theorem isDigits_toDigits (n : Nat) : IsDigits (Nat.toDigits 10 n) := by
  intro c hc
  have hdigit := Nat.isDigit_of_mem_toDigits (by decide) (by decide) hc
  simpa [isDigit, Char.isDigit, Char.le_def] using hdigit

theorem isDigits_zeros (n : Nat) : IsDigits (List.replicate n '0') := by
  intro c hc
  rw [List.eq_of_mem_replicate hc]
  rfl

theorem IsDigits.append {s t : List Char} (hs : IsDigits s) (ht : IsDigits t) :
    IsDigits (s ++ t) :=
  fun c hc => (List.mem_append.mp hc).elim (hs c) (ht c)

theorem IsDigits.of_subset {s t : List Char} (ht : IsDigits t) (h : s ⊆ t) : IsDigits s :=
  fun c hc => ht c (h hc)

theorem toNat_of_isDigit {c : Char} (h : isDigit c = true) : 48 ≤ c.toNat ∧ c.toNat ≤ 57 := by
  simpa [isDigit, Char.le_def, UInt32.le_iff_toNat_le] using h

theorem isBlank_of_isDigit {c : Char} (h : isDigit c = true) : isBlank c = false := by
  have hrange := toNat_of_isDigit h
  simp [isBlank]
  omega

theorem toLower_of_isDigit {c : Char} (h : isDigit c = true) : c.toLower = c := by
  have hrange := toNat_of_isDigit h
  refine dif_neg ?_
  rintro ⟨hupper, -⟩
  have hletter : 65 ≤ c.toNat := by simpa [UInt32.le_iff_toNat_le] using hupper
  omega

/-! ## Whole numbers -/

/-- The integer with a sign and a distance from zero. -/
def withSign (negative : Bool) (n : Nat) : Int := if negative then -n else n

theorem readInt?_of_splitSign {s digits : List Char} {negative : Bool}
    (hs : splitSign s = (negative, digits)) (hne : digits ≠ []) (hdigits : IsDigits digits) :
    readInt? s = some (withSign negative (ofDigits digits)) := by
  have hall : digits.any (!isDigit ·) = false := by simpa [IsDigits] using hdigits
  simp [readInt?, hs, hne, hall, withSign]

/-- A whole number is the sign and the digits of its text. -/
theorem exists_digits_of_readInt? {s : List Char} {i : Int} (h : readInt? s = some i) :
    ∃ negative digits, splitSign s = (negative, digits) ∧ digits ≠ [] ∧ IsDigits digits ∧
      i = withSign negative (ofDigits digits) := by
  obtain ⟨negative, digits, hs⟩ : ∃ negative digits, splitSign s = (negative, digits) := ⟨_, _, rfl⟩
  simp only [readInt?, hs] at h
  split at h
  · cases h
  · next hdigits =>
    simp only [not_or, Bool.not_eq_true, List.any_eq_false] at hdigits
    exact ⟨negative, digits, hs, hdigits.1, by simpa [IsDigits] using hdigits.2,
      (Option.some.inj h).symm⟩

/-- A text that starts with a digit has no sign. -/
theorem splitSign_of_isDigit {c : Char} (hc : isDigit c = true) (rest : List Char) :
    splitSign (c :: rest) = (false, c :: rest) := by
  have hsign : ∀ d t, isDigit d = false → c :: rest ≠ d :: t := by
    rintro d t hd h
    rw [List.cons.injEq] at h
    rw [← h.1, hc] at hd
    cases hd
  exact splitSign.eq_3 _ (fun t => hsign '-' t (by decide)) fun t => hsign '+' t (by decide)

/-- The digits of a number, the first of them apart. -/
theorem exists_toDigits (n : Nat) : ∃ c rest, Nat.toDigits 10 n = c :: rest ∧ isDigit c = true := by
  obtain ⟨c, rest, h⟩ := List.exists_cons_of_ne_nil (Nat.toDigits_ne_nil (b := 10) (n := n))
  exact ⟨c, rest, h, isDigits_toDigits n c (h ▸ List.mem_cons_self)⟩

/-- Digits after a sign are read back. -/
theorem readInt?_toDigits {s : List Char} {negative : Bool} {n : Nat}
    (hs : splitSign s = (negative, Nat.toDigits 10 n)) :
    readInt? s = some (withSign negative n) := by
  rw [readInt?_of_splitSign hs Nat.toDigits_ne_nil (isDigits_toDigits n), ofDigits_toDigits]

/-! ## Rounding -/

theorem lt_tenTo_length (n : Nat) : n < 10 ^ (Nat.toDigits 10 n).length :=
  (Nat.length_toDigits_le_iff (by decide)
    (List.length_pos_iff.mpr Nat.toDigits_ne_nil)).mp (Nat.le_refl _)

theorem tenTo_length_le {n : Nat} (hn : 0 < n) : 10 ^ ((Nat.toDigits 10 n).length - 1) ≤ n := by
  rcases Nat.eq_zero_or_pos ((Nat.toDigits 10 n).length - 1) with h | h
  · rwa [h]
  · by_contra hlt
    have hle := (Nat.length_toDigits_le_iff (by decide) h).mpr (not_le.mp hlt)
    omega

/-- The number that digits and an exponent write. -/
theorem value_eq (n : Nat) (e : Int) : (if 0 ≤ e then ((n * tenTo e.toNat : Nat) : Rat)
    else mkRat n (tenTo (-e).toNat)) = Decimal.value ⟨n, e⟩ := by
  rw [Decimal.value]
  split
  · next h =>
    obtain ⟨k, rfl⟩ := Int.eq_ofNat_of_zero_le h
    rw [Nat.cast_mul, Binary64.cast_tenTo, Int.toNat_natCast, zpow_natCast]
  · next h =>
    obtain ⟨k, hk⟩ := Int.eq_ofNat_of_zero_le (a := -e) (by omega)
    obtain rfl : e = -k := by omega
    rw [Rat.mkRat_eq_div, neg_neg, Int.toNat_natCast, Binary64.cast_tenTo, zpow_neg, zpow_natCast,
      div_eq_mul_inv, Int.cast_natCast]

/-- Digits and an exponent within the range of doubles are read as the nearest double. -/
theorem toBinary64?_eq {n : Nat} {e : Int} (hlow : (10 : Rat) ^ (-400 : Int) ≤ Decimal.value ⟨n, e⟩)
    (hhigh : Decimal.value ⟨n, e⟩ < (10 : Rat) ^ (400 : Int))
    (hround : (Binary64.round (Decimal.value ⟨n, e⟩)).overflows = false) :
    toBinary64? n e = some (Binary64.round (Decimal.value ⟨n, e⟩)) := by
  have hn : 0 < n := by
    refine Nat.pos_of_ne_zero fun hzero => ?_
    rw [hzero, Decimal.value, Nat.cast_zero, zero_mul] at hlow
    exact absurd hlow (not_le.mpr (by positivity))
  have hscale : (0 : Rat) < 10 ^ e := by positivity
  have hlength : (0 : Int) < (Nat.toDigits 10 n).length := by
    exact_mod_cast List.length_pos_iff.mpr Nat.toDigits_ne_nil
  -- The exponent of the first digit tells how large the number is.
  have htop : -400 < e + (Nat.toDigits 10 n).length := by
    have hlt : (n : Rat) < 10 ^ (Nat.toDigits 10 n).length := by exact_mod_cast lt_tenTo_length n
    refine (zpow_lt_zpow_iff_right₀ (a := (10 : Rat)) (by norm_num)).mp (hlow.trans_lt ?_)
    rw [Decimal.value, zpow_add₀ (by norm_num), zpow_natCast, mul_comm]
    exact mul_lt_mul_of_pos_left hlt hscale
  have hbottom : e + (Nat.toDigits 10 n).length ≤ 400 := by
    have hle : (10 : Rat) ^ ((Nat.toDigits 10 n).length - 1) ≤ n := by
      exact_mod_cast tenTo_length_le hn
    have hlt := (zpow_lt_zpow_iff_right₀ (a := (10 : Rat)) (by norm_num)).mp
      (lt_of_le_of_lt (a := (10 : Rat) ^ (e + ((Nat.toDigits 10 n).length - 1 : Nat))) ?_ hhigh)
    · omega
    · rw [Decimal.value, zpow_add₀ (by norm_num), zpow_natCast, mul_comm (n : Rat)]
      exact mul_le_mul_of_nonneg_left hle hscale.le
  simp only [toBinary64?, hn.ne', not_lt.mpr htop.le, not_lt.mpr hbottom, or_self, if_false,
    value_eq, hround, Bool.false_eq_true]

theorem tenTo_lt_two_pow : (tenTo 300 : Rat) < 2 ^ 1000 := by
  rw [Binary64.cast_tenTo, show 300 = 3 * 100 from rfl, show 1000 = 10 * 100 from rfl, pow_mul,
    pow_mul]
  exact pow_lt_pow_left₀ (by norm_num) (by norm_num) (by decide)

/-- A whole number far inside the range of doubles is rounded to a finite one. -/
theorem overflows_round_of_lt {n : Nat} (hn : 0 < n) (h : n < tenTo 300) :
    (Binary64.round n).overflows = false := by
  have hpos : (0 : Rat) < n := by exact_mod_cast hn
  have hlt : (n : Rat) < tenTo 300 := Nat.cast_lt.mpr h
  rw [Binary64.overflows_eq_false_iff, abs_of_nonneg (Binary64.round_nonneg hpos)]
  exact (Binary64.round_le_pow hpos (hlt.trans tenTo_lt_two_pow)).trans_lt
    (pow_lt_pow_right₀ one_lt_two (by decide))

/-- A whole number far inside the range of doubles is read as the nearest double. -/
theorem toBinary64?_of_lt {n : Nat} (h : n < tenTo 300) :
    toBinary64? n 0 = some (Binary64.round n) := by
  rcases Nat.eq_zero_or_pos n with rfl | hn
  · rfl
  have hlt : (n : Rat) < tenTo 300 := Nat.cast_lt.mpr h
  have hround := overflows_round_of_lt hn h
  have hvalue : Decimal.value ⟨n, 0⟩ = n := by rw [Decimal.value, zpow_zero, mul_one]
  rw [← hvalue] at hround ⊢
  refine toBinary64?_eq ?_ ?_ hround <;> rw [hvalue]
  · exact (zpow_le_one_of_nonpos₀ (by norm_num) (by decide)).trans (by exact_mod_cast hn)
  · rw [Binary64.cast_tenTo] at hlt
    exact hlt.trans (pow_lt_pow_right₀ (by norm_num) (by decide))

/-! ## Real numbers -/

theorem takeWhile_isDigit {ds : List Char} (hds : IsDigits ds) (rest : List Char)
    (hrest : ∀ c ∈ rest.head?, isDigit c = false) :
    (ds ++ rest).takeWhile isDigit = ds ∧ (ds ++ rest).dropWhile isDigit = rest := by
  rw [List.takeWhile_append_of_pos hds, List.dropWhile_append_of_pos hds]
  cases rest with
  | nil => simp
  | cons c rest => simp [hrest c rfl]

/-- What starts an exponent is no digit and no point. -/
theorem head?_of_readExponent? {rest : List Char} {e : Int} (h : readExponent? rest = some e) :
    ∀ c ∈ rest.head?, isDigit c = false ∧ c ≠ '.' := by
  cases rest with
  | nil => simp
  | cons c rest =>
    rw [readExponent?] at h
    split at h
    · next hc =>
      rintro d hd
      cases hd
      rcases hc with rfl | rfl <;> decide
    · cases h

theorem readMagnitude?_whole {whole rest : List Char} {e : Int} (hne : whole ≠ [])
    (hwhole : IsDigits whole) (hrest : readExponent? rest = some e) :
    readMagnitude? (whole ++ rest) = some (toBinary64? (ofDigits whole) e) := by
  have hhead := head?_of_readExponent? hrest
  obtain ⟨htake, hdrop⟩ := takeWhile_isDigit hwhole rest fun c hc => (hhead c hc).1
  have hpoint : ∀ t, rest = '.' :: t → False := by
    rintro t rfl
    exact (hhead '.' rfl).2 rfl
  simp [readMagnitude?, htake, hdrop, hne, hrest]

theorem readMagnitude?_fraction {whole fraction rest : List Char} {e : Int} (hne : whole ≠ [])
    (hwhole : IsDigits whole) (hfraction : IsDigits fraction)
    (hrest : readExponent? rest = some e) :
    readMagnitude? (whole ++ '.' :: (fraction ++ rest)) =
      some (toBinary64? (ofDigits (whole ++ fraction)) (e - (fraction.length : Int))) := by
  have hhead := head?_of_readExponent? hrest
  obtain ⟨htake, hdrop⟩ := takeWhile_isDigit hwhole ('.' :: (fraction ++ rest))
    fun c hc => by cases hc; decide
  obtain ⟨htake', hdrop'⟩ := takeWhile_isDigit hfraction rest fun c hc => (hhead c hc).1
  simp [readMagnitude?, htake, hdrop, htake', hdrop', hne, hrest]

/-- A text that starts with a digit is no word. -/
theorem ofList_toLower_ne (word : String) {c : Char} {rest : List Char}
    (hword : word.toList = c :: rest) (hc : isDigit c = false) {d : Char} (hd : isDigit d = true)
    (ds : List Char) : String.ofList ((d :: ds).map Char.toLower) ≠ word := by
  intro h
  rw [← h] at hword
  simp only [String.toList_ofList, List.map_cons, List.cons.injEq, toLower_of_isDigit hd] at hword
  rw [hword.1, hc] at hd
  cases hd

/-- What is read after a sign is given the sign. -/
theorem readReal?_of_splitSign {s ds : List Char} {d : Char} {negative : Bool}
    (hs : splitSign s = (negative, d :: ds)) (hd : isDigit d = true) {a : Binary64}
    (ha : readMagnitude? (d :: ds) = some (some a)) :
    readReal? s = some (.finite (if negative then -a else a)) := by
  have hinf := ofList_toLower_ne "inf" rfl (by decide) hd ds
  have hinfinity := ofList_toLower_ne "infinity" rfl (by decide) hd ds
  have hnan := ofList_toLower_ne "nan" rfl (by decide) hd ds
  simp only [readReal?, hs, hinf, hinfinity, hnan, or_self, if_false, ha, Option.map_some]

/-- A whole number is read as a real number too, as the nearest double. -/
theorem readReal?_of_readInt? {s : List Char} {i : Int} (hs : readInt? s = some i)
    (hi : i.natAbs < tenTo 300) : ∃ negative n, i = withSign negative n ∧ readReal? s =
      some (.finite (if negative then -Binary64.round (n : Nat) else Binary64.round n)) := by
  obtain ⟨negative, digits, hsplit, hne, hdigits, rfl⟩ := exists_digits_of_readInt? hs
  refine ⟨negative, ofDigits digits, rfl, ?_⟩
  have hbound : ofDigits digits < tenTo 300 := by
    cases negative <;> simpa [withSign] using hi
  have hend : readExponent? [] = some 0 := rfl
  have hread := readMagnitude?_whole hne hdigits hend
  rw [List.append_nil, toBinary64?_of_lt hbound] at hread
  obtain ⟨d, ds, rfl⟩ := List.exists_cons_of_ne_nil hne
  exact readReal?_of_splitSign hsplit (hdigits d List.mem_cons_self) hread

/-! ## Written doubles -/

theorem isDigits_zero : IsDigits ['0'] := isDigits_zeros 1

/-- Digits that a point follows are read with zeros for the places up to it. -/
theorem readMagnitude?_scaled (n k : Nat) : ∃ m e,
    readMagnitude? (Nat.toDigits 10 n ++ List.replicate k '0' ++ ['.', '0']) =
      some (toBinary64? m e) ∧ Decimal.value ⟨m, e⟩ = Decimal.value ⟨n, k⟩ := by
  have hzero : ofDigits ['0'] = 0 := rfl
  have hend : readExponent? [] = some 0 := rfl
  have hread := readMagnitude?_fraction (List.append_ne_nil_of_left_ne_nil Nat.toDigits_ne_nil _)
    ((isDigits_toDigits n).append (isDigits_zeros k)) isDigits_zero hend
  refine ⟨_, _, hread, ?_⟩
  rw [ofDigits_append, ofDigits_append, ofDigits_toDigits, ofDigits_zeros, hzero, Decimal.value,
    Decimal.value, List.length_replicate, List.length_singleton, zpow_natCast]
  push_cast
  norm_num
  ring

/-- Digits may have a point between them. -/
theorem readMagnitude?_split {n k : Nat} (hk : k < (Nat.toDigits 10 n).length) :
    readMagnitude? ((Nat.toDigits 10 n).take ((Nat.toDigits 10 n).length - k) ++
      '.' :: (Nat.toDigits 10 n).drop ((Nat.toDigits 10 n).length - k)) =
        some (toBinary64? n (-k)) := by
  have hdigits := isDigits_toDigits n
  have hend : readExponent? [] = some 0 := rfl
  have htake : (Nat.toDigits 10 n).take ((Nat.toDigits 10 n).length - k) ≠ [] := by
    rw [Ne, List.take_eq_nil_iff, not_or]
    exact ⟨by omega, Nat.toDigits_ne_nil⟩
  have hread := readMagnitude?_fraction htake (hdigits.of_subset (List.take_subset _ _))
    (hdigits.of_subset (List.drop_subset ((Nat.toDigits 10 n).length - k) _)) hend
  rw [List.append_nil, List.take_append_drop, ofDigits_toDigits, List.length_drop] at hread
  rw [hread]
  congr 2
  omega

/-- Digits may have zeros and a point before them. -/
theorem readMagnitude?_small {n k : Nat} (hk : (Nat.toDigits 10 n).length ≤ k) :
    readMagnitude? ('0' :: '.' ::
      (List.replicate (k - (Nat.toDigits 10 n).length) '0' ++ Nat.toDigits 10 n)) =
        some (toBinary64? n (-k)) := by
  have hzero : ofDigits ['0'] = 0 := rfl
  have hend : readExponent? [] = some 0 := rfl
  have hread := readMagnitude?_fraction (List.cons_ne_nil _ _) isDigits_zero
    ((isDigits_zeros (k - (Nat.toDigits 10 n).length)).append (isDigits_toDigits n)) hend
  rw [List.append_nil, ofDigits_append, ofDigits_append, ofDigits_toDigits, ofDigits_zeros, hzero,
    Nat.zero_mul, Nat.zero_mul, Nat.zero_add, Nat.zero_add, List.length_append,
    List.length_replicate] at hread
  refine hread.trans ?_
  congr 2
  omega

/-- Positional notation is read as the number that it is made for. -/
theorem readMagnitude?_positional (x : Decimal) :
    ∃ n e, readMagnitude? (Binary64.positional ['.', '0'] x) = some (toBinary64? n e) ∧
      Decimal.value ⟨n, e⟩ = x.value := by
  obtain ⟨n, exponent⟩ := x
  simp only [Binary64.positional, Binary64.digitChars]
  split
  · next h =>
    obtain ⟨k, rfl⟩ := Int.eq_ofNat_of_zero_le h
    exact readMagnitude?_scaled n k
  · next h =>
    obtain ⟨k, hk⟩ := Int.eq_ofNat_of_zero_le (a := -exponent) (by omega)
    obtain rfl : exponent = -k := by omega
    simp only [neg_neg, Int.toNat_natCast]
    split
    · next hlt => exact ⟨_, _, readMagnitude?_split hlt, rfl⟩
    · next hge => exact ⟨_, _, readMagnitude?_small (not_lt.mp hge), rfl⟩

/-- The exponent at the end of a number is read back. -/
theorem readExponent?_exponent (e : Int) : readExponent? ('e' :: (if e < 0 then
    '-' :: Nat.toDigits 10 e.natAbs else '+' :: Nat.toDigits 10 e.natAbs)) = some e := by
  rw [readExponent?, if_pos (.inl rfl)]
  split
  · next h =>
    have hsplit : splitSign ('-' :: Nat.toDigits 10 e.natAbs) = (true, _) := rfl
    rw [readInt?_toDigits hsplit, withSign, if_pos rfl, Int.ofNat_natAbs_of_nonpos h.le, neg_neg]
  · next h =>
    have hsplit : splitSign ('+' :: Nat.toDigits 10 e.natAbs) = (false, _) := rfl
    rw [readInt?_toDigits hsplit, withSign, if_neg Bool.false_ne_true,
      Int.natAbs_of_nonneg (not_lt.mp h)]

/-- Exponent notation is read as the number that it is made for. -/
theorem readMagnitude?_scientific (x : Decimal) :
    ∃ n e, readMagnitude? (Binary64.scientific x) = some (toBinary64? n e) ∧
      Decimal.value ⟨n, e⟩ = x.value := by
  obtain ⟨n, exponent⟩ := x
  have hdigits := isDigits_toDigits n
  have hvalue := ofDigits_toDigits n
  have hend := readExponent?_exponent (exponent + ((Nat.toDigits 10 n).length : Int) - 1)
  simp only [Binary64.scientific, Binary64.digitChars]
  split
  · next first second rest hds =>
    rw [hds] at hdigits hvalue
    have hfirst : IsDigits [first] := hdigits.of_subset (by simp)
    have hread := readMagnitude?_fraction (List.cons_ne_nil _ _) hfirst
      (hdigits.of_subset (List.subset_cons_self _ _)) hend
    rw [List.singleton_append, List.singleton_append, hvalue] at hread
    refine ⟨_, _, hread, ?_⟩
    have hlength : (Nat.toDigits 10 n).length = (second :: rest).length + 1 := congrArg _ hds
    congr 2
    omega
  · next ds hds =>
    refine ⟨_, _, readMagnitude?_whole Nat.toDigits_ne_nil hdigits hend, ?_⟩
    have hlength : (Nat.toDigits 10 n).length = 1 := by
      obtain ⟨c, rest, h, -⟩ := exists_toDigits n
      cases rest with
      | nil => rw [h]; rfl
      | cons d rest => exact absurd h (hds c d rest)
    rw [hvalue, hlength]
    congr 2
    omega

/-- What is written for a double is read as it. -/
theorem readMagnitude?_magnitudeChars {a : Binary64} (ha : a.IsDouble) (hnonneg : 0 ≤ a.value)
    (hfinite : a.overflows = false) : readMagnitude? a.magnitudeChars = some (some a) := by
  obtain ⟨n, e, hread, hvalue⟩ : ∃ n e,
      readMagnitude? a.magnitudeChars = some (toBinary64? n e) ∧
        Decimal.value ⟨n, e⟩ = a.shortest.value := by
    simp only [Binary64.magnitudeChars]
    split
    · exact readMagnitude?_positional _
    · exact readMagnitude?_scientific _
  rw [hread]
  rcases hnonneg.eq_or_lt with hzero | hpos
  · obtain rfl : a = 0 := congrArg Binary64.mk hzero.symm
    have hn : n = 0 := by
      have hpow : (10 : Rat) ^ e ≠ 0 := by positivity
      have hshortest : (0 : Binary64).shortest.value = 0 := zero_mul _
      rw [hshortest, Decimal.value, mul_eq_zero, Nat.cast_eq_zero] at hvalue
      exact hvalue.resolve_right hpow
    rw [hn, toBinary64?]
    simp only [true_or, if_true]
  · have hhigh := Binary64.overflows_eq_false_iff.mp hfinite
    rw [abs_of_pos hpos] at hhigh
    have hround := Binary64.round_shortest ha hpos hhigh
    obtain ⟨hlow, hup⟩ := Binary64.shortest_mem ha hpos hhigh
    rw [← hvalue] at hround hlow hup
    rw [toBinary64?_eq hlow hup ((congrArg Binary64.overflows hround).trans hfinite), hround]

/-- A text that starts with a digit and goes on with a point or an exponent. -/
structure IsRealText (s : List Char) : Prop where
  head : ∃ c rest, s = c :: rest ∧ isDigit c = true
  mark : ∃ c ∈ s, isDigit c = false
  solid : ∀ c ∈ s, isBlank c = false

theorem isRealText_fraction {whole fraction : List Char} (hne : whole ≠ [])
    (hwhole : IsDigits whole) (hfraction : IsDigits fraction) :
    IsRealText (whole ++ '.' :: fraction) := by
  obtain ⟨c, rest, rfl⟩ := List.exists_cons_of_ne_nil hne
  refine ⟨⟨c, _, rfl, hwhole c List.mem_cons_self⟩, ⟨'.', by simp, by decide⟩, fun d hd => ?_⟩
  rcases List.mem_append.mp hd with h | h
  · exact isBlank_of_isDigit (hwhole d h)
  · rcases List.mem_cons.mp h with rfl | h
    · decide
    · exact isBlank_of_isDigit (hfraction d h)

theorem isRealText_exponent {mantissa : List Char} (e : Int)
    (hhead : ∃ c rest, mantissa = c :: rest ∧ isDigit c = true)
    (hsolid : ∀ c ∈ mantissa, isBlank c = false) :
    IsRealText (mantissa ++ 'e' :: (if e < 0 then '-' :: Binary64.digitChars e.natAbs
      else '+' :: Binary64.digitChars e.natAbs)) := by
  obtain ⟨c, rest, rfl, hc⟩ := hhead
  refine ⟨⟨c, _, rfl, hc⟩, ⟨'e', by simp, by decide⟩, fun d hd => ?_⟩
  have hdigits : d ∈ Binary64.digitChars e.natAbs → isBlank d = false :=
    fun h => isBlank_of_isDigit (isDigits_toDigits _ d h)
  rcases List.mem_append.mp hd with h | h
  · exact hsolid d h
  · rcases List.mem_cons.mp h with rfl | h
    · decide
    · split at h <;> rcases List.mem_cons.mp h with rfl | h
      · decide
      · exact hdigits h
      · decide
      · exact hdigits h

theorem isRealText_positional (x : Decimal) : IsRealText (Binary64.positional ['.', '0'] x) := by
  have hdigits : IsDigits (Binary64.digitChars x.digits) := isDigits_toDigits _
  have hne : Binary64.digitChars x.digits ≠ [] := Nat.toDigits_ne_nil
  simp only [Binary64.positional]
  split
  · exact isRealText_fraction (List.append_ne_nil_of_left_ne_nil hne _)
      (hdigits.append (isDigits_zeros _)) isDigits_zero
  · split
    · refine isRealText_fraction ?_ (hdigits.of_subset (List.take_subset _ _))
        (hdigits.of_subset (List.drop_subset _ _))
      rw [Ne, List.take_eq_nil_iff, not_or]
      exact ⟨by omega, hne⟩
    · exact isRealText_fraction (List.cons_ne_nil _ _) isDigits_zero
        ((isDigits_zeros _).append hdigits)

theorem isRealText_scientific (x : Decimal) : IsRealText (Binary64.scientific x) := by
  have hdigits : IsDigits (Binary64.digitChars x.digits) := isDigits_toDigits _
  simp only [Binary64.scientific]
  split
  · next first second rest hds =>
    rw [hds] at hdigits
    have hfirst : IsDigits [first] := hdigits.of_subset (by simp)
    have hfraction := isRealText_fraction (List.cons_ne_nil _ _) hfirst
      (hdigits.of_subset (List.subset_cons_self _ _))
    exact isRealText_exponent _ hfraction.head hfraction.solid
  · obtain ⟨c, rest, hds, hc⟩ := exists_toDigits x.digits
    exact isRealText_exponent _ ⟨c, rest, hds, hc⟩ fun d hd => isBlank_of_isDigit (hdigits d hd)

theorem isRealText_magnitudeChars (a : Binary64) : IsRealText a.magnitudeChars := by
  simp only [Binary64.magnitudeChars]
  split
  · exact isRealText_positional _
  · exact isRealText_scientific _

/-- A real number is no whole number. -/
theorem readInt?_of_isRealText {s t : List Char} {negative : Bool}
    (hs : splitSign s = (negative, t)) (ht : IsRealText t) : readInt? s = none := by
  have hany : t.any (!isDigit ·) = true := by simpa using ht.mark
  simp only [readInt?, hs, hany, or_true, if_true]

end MessageCard.Decimal
