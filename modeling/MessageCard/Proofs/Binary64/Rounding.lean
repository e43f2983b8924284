import Mathlib.Algebra.Order.Field.Power
import Mathlib.Algebra.Order.Field.Rat
import Mathlib.Data.Nat.Log
import Mathlib.Tactic.FieldSimp
import Mathlib.Tactic.Linarith
import Mathlib.Tactic.NormNum
import Mathlib.Tactic.Positivity
import Mathlib.Tactic.Ring
import MessageCard.Binary64

/-!
# Rounding to doubles

A number is a double if rounding leaves it alone. Every result of rounding is one: it is a multiple
of the last place of its own magnitude, since the rounded multiple has at most 53 binary digits.
Rounding never crosses such a multiple, so a power of two above or below a number stays there.
-/
namespace MessageCard.Binary64

/-- The number is one that a double holds. -/
def IsDouble (x : Binary64) : Prop := round x.value = x

/-! ## Powers of two -/

theorem cast_twoTo (n : Nat) : (twoTo n : Rat) = 2 ^ n := by
  rw [show twoTo n = 2 ^ n from rfl]
  push_cast
  rfl

theorem twoTo_pos (n : Nat) : (0 : Rat) < twoTo n := by
  rw [cast_twoTo]
  positivity

theorem scaled_eq (m e : Int) : scaled m e = m * (2 : Rat) ^ e := by
  rw [scaled]
  split
  · next h =>
    obtain ⟨k, rfl⟩ := Int.eq_ofNat_of_zero_le h
    rw [Int.toNat_natCast, zpow_natCast, Int.cast_mul, Int.cast_natCast, cast_twoTo]
  · next h =>
    obtain ⟨k, hk⟩ := Int.eq_ofNat_of_zero_le (a := -e) (by omega)
    obtain rfl : e = -k := by omega
    rw [neg_neg, Int.toNat_natCast, Rat.mkRat_eq_div, zpow_neg, zpow_natCast, div_eq_mul_inv,
      cast_twoTo]

/-- The two natural powers by which a fraction is scaled up or down. -/
theorem pow_neg_toNat {b : Rat} (hb : b ≠ 0) (e : Int) : b ^ (-e).toNat * b ^ e = b ^ e.toNat := by
  rcases le_total 0 e with h | h
  · obtain ⟨k, rfl⟩ := Int.eq_ofNat_of_zero_le h
    simp
  · obtain ⟨k, hk⟩ := Int.eq_ofNat_of_zero_le (a := -e) (by omega)
    obtain rfl : e = -k := by omega
    simp [hb]

theorem twoTo_neg_toNat (e : Int) :
    (twoTo (-e).toNat : Rat) * (2 : Rat) ^ e = twoTo e.toNat := by
  rw [cast_twoTo, cast_twoTo, pow_neg_toNat two_ne_zero]

/-- A fraction is compared with a multiple of a power of two in whole numbers. -/
theorem lt_mul_twoTo_iff {n d : Nat} (hd : 0 < d) (k : Nat) (e : Int) :
    n * twoTo (-e).toNat < k * (d * twoTo e.toNat) ↔ (n / d : Rat) < k * (2 : Rat) ^ e := by
  have hpos : (0 : Rat) < d := by exact_mod_cast hd
  have hscale := twoTo_pos (-e).toNat
  rw [div_lt_iff₀ hpos, ← Nat.cast_lt (α := Rat), Nat.cast_mul, Nat.cast_mul, Nat.cast_mul,
    ← twoTo_neg_toNat e]
  constructor
  · intro h
    refine lt_of_mul_lt_mul_right ?_ hscale.le
    linarith
  · intro h
    have hmul := mul_lt_mul_of_pos_right h hscale
    linarith

theorem lt_twoTo_iff {n d : Nat} (hd : 0 < d) (e : Int) :
    n * twoTo (-e).toNat < d * twoTo e.toNat ↔ (n / d : Rat) < (2 : Rat) ^ e := by
  simpa using lt_mul_twoTo_iff (n := n) hd 1 e

/-- The exponent of a fraction is that of the greatest power of two up to it. -/
theorem binaryExponent_bounds {n d : Nat} (hn : 0 < n) (hd : 0 < d) :
    (2 : Rat) ^ binaryExponent n d ≤ n / d ∧
      (n / d : Rat) < (2 : Rat) ^ (binaryExponent n d + 1) := by
  have hpos : (0 : Rat) < d := by exact_mod_cast hd
  have hnlow : (2 : Rat) ^ n.log2 ≤ n := by exact_mod_cast Nat.log2_self_le hn.ne'
  have hnhigh : (n : Rat) < 2 ^ (n.log2 + 1) := by exact_mod_cast Nat.lt_log2_self
  have hdlow : (2 : Rat) ^ d.log2 ≤ d := by exact_mod_cast Nat.log2_self_le hd.ne'
  have hdhigh : (d : Rat) < 2 ^ (d.log2 + 1) := by exact_mod_cast Nat.lt_log2_self
  -- The logarithms of the two numbers leave two candidates for the exponent.
  have hlow : (2 : Rat) ^ ((n.log2 : Int) - d.log2 - 1) ≤ n / d := by
    rw [le_div_iff₀ hpos]
    calc (2 : Rat) ^ ((n.log2 : Int) - d.log2 - 1) * d
        ≤ 2 ^ ((n.log2 : Int) - d.log2 - 1) * 2 ^ (d.log2 + 1) := by gcongr
      _ = 2 ^ n.log2 := by
        rw [← zpow_natCast, ← zpow_add₀ two_ne_zero, ← zpow_natCast]
        congr 1
        push_cast
        ring
      _ ≤ n := hnlow
  have hhigh : (n / d : Rat) < (2 : Rat) ^ ((n.log2 : Int) - d.log2 + 1) := by
    rw [div_lt_iff₀ hpos]
    calc (n : Rat) < 2 ^ (n.log2 + 1) := hnhigh
      _ = 2 ^ ((n.log2 : Int) - d.log2 + 1) * 2 ^ d.log2 := by
        rw [← zpow_natCast, ← zpow_natCast, ← zpow_add₀ two_ne_zero]
        congr 1
        push_cast
        ring
      _ ≤ 2 ^ ((n.log2 : Int) - d.log2 + 1) * d := by gcongr
  simp only [binaryExponent]
  split
  · next h =>
    have hlt := (lt_twoTo_iff hd _).mp h
    exact ⟨hlow, by rwa [sub_add_cancel]⟩
  · next h =>
    have hge := (lt_twoTo_iff hd _).not.mp h
    exact ⟨not_lt.mp hge, hhigh⟩

/-! ## Rounding what is a multiple already -/

theorem nearestEven_mul (k d : Nat) (hd : 0 < d) : nearestEven (k * d) d = k := by
  simp only [nearestEven, Nat.mul_mod_left, Nat.mul_div_cancel _ hd]
  rw [if_pos (by omega)]

theorem nearestEven_le {n d bound : Nat} (h : n < bound * d) : nearestEven n d ≤ bound := by
  have hq : n / d < bound := Nat.div_lt_of_lt_mul (by rwa [Nat.mul_comm] at h)
  simp only [nearestEven]
  split
  · omega
  · split
    · omega
    · split <;> omega

theorem abs_eq_div (x : Rat) : |x| = x.num.natAbs / x.den := by
  conv_lhs => rw [← Rat.num_div_den x]
  rw [abs_div, Nat.abs_cast, Nat.cast_natAbs, Int.cast_abs]

/-- A number that is a multiple of the last place for its magnitude is left alone. -/
theorem isDouble_of_multiple {x : Rat} (hx : x ≠ 0) {k : Nat}
    (h : |x| = k * (2 : Rat) ^ lastPlace x.num.natAbs x.den) : IsDouble ⟨x⟩ := by
  have hnum : ¬x.num = 0 := by rwa [Rat.num_eq_zero]
  have hden : (0 : Rat) < x.den := by exact_mod_cast x.den_pos
  generalize he : lastPlace x.num.natAbs x.den = e at h
  have hexact : x.num.natAbs * twoTo (-e).toNat = k * (x.den * twoTo e.toNat) := by
    rw [abs_eq_div, div_eq_iff hden.ne'] at h
    rw [← Nat.cast_inj (R := Rat), Nat.cast_mul, Nat.cast_mul, Nat.cast_mul, h,
      ← twoTo_neg_toNat e]
    ring
  have hscale : 0 < x.den * twoTo e.toNat :=
    Nat.mul_pos x.den_pos (by exact_mod_cast twoTo_pos e.toNat)
  have hround : round x = ⟨scaled (x.num.sign * k) e⟩ := by
    simp only [round, if_neg hnum, he, hexact, nearestEven_mul k _ hscale]
  rw [IsDouble, hround, scaled_eq]
  congr 1
  rw [Int.cast_mul, Int.cast_natCast, mul_assoc, ← h, abs_eq_div, ← mul_div_assoc,
    ← Int.cast_natCast, ← Int.cast_mul, Int.sign_mul_natAbs, Rat.num_div_den]

/-- A multiple of a place is one of every lower place. -/
theorem exists_multiple {e f : Int} (h : e ≤ f) (m : Nat) :
    ∃ k : Nat, (m : Rat) * 2 ^ f = k * 2 ^ e := by
  obtain ⟨j, hj⟩ := Int.eq_ofNat_of_zero_le (sub_nonneg.mpr h)
  refine ⟨m * 2 ^ j, ?_⟩
  obtain rfl : f = j + e := by omega
  rw [zpow_add₀ two_ne_zero, zpow_natCast]
  push_cast
  ring

/-- A number of at most 53 binary digits at a place that doubles have is a double. -/
theorem isDouble_of_digits {x : Rat} {m : Nat} {e : Int} (hm : m ≤ 2 ^ 53) (he : -1074 ≤ e)
    (h : |x| = m * (2 : Rat) ^ e) : IsDouble ⟨x⟩ := by
  rcases eq_or_ne x 0 with rfl | hx
  · rfl
  have hpos : 0 < x.num.natAbs := Int.natAbs_pos.mpr (by rwa [Ne, Rat.num_eq_zero])
  have hlow := (binaryExponent_bounds hpos x.den_pos).1
  rw [← abs_eq_div, h] at hlow
  have hplace : lastPlace x.num.natAbs x.den =
      max (binaryExponent x.num.natAbs x.den - 52) (-1074) := rfl
  generalize binaryExponent x.num.natAbs x.den = b at hlow hplace
  have hscale : (0 : Rat) < 2 ^ e := by positivity
  rcases Nat.lt_or_eq_of_le hm with hm | rfl
  · have hlt : (2 : Rat) ^ b < 2 ^ (53 + e) := by
      have hcast : (m : Rat) < 2 ^ 53 := by exact_mod_cast hm
      rw [zpow_add₀ two_ne_zero]
      exact hlow.trans_lt (mul_lt_mul_of_pos_right hcast hscale)
    have hb := (zpow_lt_zpow_iff_right₀ one_lt_two).mp hlt
    obtain ⟨k, hk⟩ := exists_multiple (e := lastPlace x.num.natAbs x.den) (f := e) (by omega) m
    exact isDouble_of_multiple hx (h.trans hk)
  -- The carry into a 54th digit is a carry into the next place.
  · have hcarry : |x| = ((2 ^ 52 : Nat) : Rat) * 2 ^ (e + 1) := by
      rw [h, zpow_add₀ two_ne_zero]
      push_cast
      ring
    have hle : (2 : Rat) ^ b ≤ 2 ^ (53 + e) := by
      rw [zpow_add₀ two_ne_zero]
      exact_mod_cast hlow
    have hb := (zpow_le_zpow_iff_right₀ one_lt_two).mp hle
    obtain ⟨k, hk⟩ :=
      exists_multiple (e := lastPlace x.num.natAbs x.den) (f := e + 1) (by omega) (2 ^ 52)
    exact isDouble_of_multiple hx (hcarry.trans hk)

/-- A number is rounded to at most 53 binary digits at its last place. -/
theorem digits_le {x : Rat} (hx : x.num ≠ 0) :
    nearestEven (x.num.natAbs * twoTo (-lastPlace x.num.natAbs x.den).toNat)
      (x.den * twoTo (lastPlace x.num.natAbs x.den).toNat) ≤ 2 ^ 53 := by
  have hhigh := (binaryExponent_bounds (Int.natAbs_pos.mpr hx) x.den_pos).2
  have hplace : lastPlace x.num.natAbs x.den =
      max (binaryExponent x.num.natAbs x.den - 52) (-1074) := rfl
  generalize lastPlace x.num.natAbs x.den = e at hplace
  have hbound : (x.num.natAbs / x.den : Rat) < 2 ^ (53 + e) :=
    hhigh.trans_le ((zpow_le_zpow_iff_right₀ one_lt_two).mpr (by omega))
  refine nearestEven_le ((lt_mul_twoTo_iff x.den_pos _ e).mpr (hbound.trans_eq ?_))
  rw [zpow_add₀ two_ne_zero]
  norm_cast

/-- Every result of rounding is a double. -/
theorem isDouble_round (x : Rat) : (round x).IsDouble := by
  by_cases hx : x.num = 0
  · rw [round, if_pos hx]
    rfl
  have hdigits := digits_le hx
  have hplace : lastPlace x.num.natAbs x.den =
      max (binaryExponent x.num.natAbs x.den - 52) (-1074) := rfl
  generalize he : lastPlace x.num.natAbs x.den = e at hdigits hplace
  have hround : round x = ⟨scaled (x.num.sign *
      nearestEven (x.num.natAbs * twoTo (-e).toNat) (x.den * twoTo e.toNat)) e⟩ := by
    simp only [round, if_neg hx, he]
  rw [hround]
  refine isDouble_of_digits (e := e) hdigits (by omega) ?_
  have hsign : |(x.num.sign : Rat)| = 1 := by
    rw [← Int.cast_abs, Int.abs_sign_of_ne_zero hx, Int.cast_one]
  have hscale : |(2 : Rat) ^ e| = 2 ^ e := abs_of_pos (by positivity)
  rw [scaled_eq, abs_mul, hscale, Int.cast_mul, abs_mul, hsign, one_mul, Int.cast_natCast,
    Nat.abs_cast]

/-! ## Bounds -/

theorem le_nearestEven {n d bound : Nat} (hd : 0 < d) (h : bound * d ≤ n) :
    bound ≤ nearestEven n d := by
  have hq : bound ≤ n / d := (Nat.le_div_iff_mul_le hd).mpr h
  simp only [nearestEven]
  split
  · omega
  · split
    · omega
    · split <;> omega

/-- The place to which a positive number is rounded, and the result as a multiple of it. -/
theorem round_value_of_pos {x : Rat} (hx : 0 < x) : (round x).value =
    nearestEven (x.num.natAbs * twoTo (-lastPlace x.num.natAbs x.den).toNat)
      (x.den * twoTo (lastPlace x.num.natAbs x.den).toNat) *
        (2 : Rat) ^ lastPlace x.num.natAbs x.den := by
  have hnum : 0 < x.num := Rat.num_pos.mpr hx
  simp only [round, if_neg hnum.ne', scaled_eq, Int.sign_eq_one_of_pos hnum, one_mul,
    Int.cast_natCast]

theorem natAbs_div_den {x : Rat} (hx : 0 < x) : (x.num.natAbs / x.den : Rat) = x := by
  rw [← abs_eq_div, abs_of_pos hx]

theorem round_nonneg {x : Rat} (hx : 0 < x) : 0 ≤ (round x).value := by
  rw [round_value_of_pos hx]
  positivity

/-- Rounding does not take a number past a multiple of its last place. -/
theorem round_le_of_lt_multiple {x : Rat} (hx : 0 < x) {k : Nat}
    (h : x < k * (2 : Rat) ^ lastPlace x.num.natAbs x.den) :
    (round x).value ≤ k * (2 : Rat) ^ lastPlace x.num.natAbs x.den := by
  have hm := nearestEven_le
    ((lt_mul_twoTo_iff x.den_pos k _).mpr ((natAbs_div_den hx).trans_lt h))
  rw [round_value_of_pos hx]
  gcongr

theorem le_round_of_multiple_le {x : Rat} (hx : 0 < x) {k : Nat}
    (h : k * (2 : Rat) ^ lastPlace x.num.natAbs x.den ≤ x) :
    k * (2 : Rat) ^ lastPlace x.num.natAbs x.den ≤ (round x).value := by
  have hle := not_lt.mp ((lt_mul_twoTo_iff x.den_pos k _).not.mpr
    (not_lt.mpr (h.trans_eq (natAbs_div_den hx).symm)))
  have hscale : 0 < x.den * twoTo (lastPlace x.num.natAbs x.den).toNat :=
    Nat.mul_pos x.den_pos (by exact_mod_cast twoTo_pos _)
  have hm := le_nearestEven hscale hle
  rw [round_value_of_pos hx]
  gcongr

/-- A power of two from one up is a multiple of the places of the numbers near it. -/
theorem pow_eq_multiple {e : Int} {k : Nat} (h : e ≤ k) :
    (2 : Rat) ^ k = (2 ^ (k - e).toNat : Nat) * (2 : Rat) ^ e := by
  push_cast
  rw [← zpow_natCast, ← zpow_natCast, ← zpow_add₀ two_ne_zero]
  congr 1
  omega

theorem round_le_pow {x : Rat} (hx : 0 < x) {k : Nat} (h : x < 2 ^ k) :
    (round x).value ≤ 2 ^ k := by
  have hlow := (binaryExponent_bounds (Int.natAbs_pos.mpr (Rat.num_pos.mpr hx).ne') x.den_pos).1
  rw [natAbs_div_den hx] at hlow
  have hb := (zpow_lt_zpow_iff_right₀ (one_lt_two (α := Rat))).mp
    (hlow.trans_lt (h.trans_eq (zpow_natCast 2 k).symm))
  have hplace : lastPlace x.num.natAbs x.den ≤ k := by
    rw [lastPlace]
    omega
  rw [pow_eq_multiple hplace] at h ⊢
  exact round_le_of_lt_multiple hx h

theorem pow_le_round {x : Rat} {k : Nat} (h : 2 ^ k ≤ x) : 2 ^ k ≤ (round x).value := by
  have hx : 0 < x := lt_of_lt_of_le (by positivity) h
  obtain ⟨hlow, hhigh⟩ :=
    binaryExponent_bounds (Int.natAbs_pos.mpr (Rat.num_pos.mpr hx).ne') x.den_pos
  rw [natAbs_div_den hx] at hlow hhigh
  have hb := (zpow_lt_zpow_iff_right₀ (one_lt_two (α := Rat))).mp
    (((zpow_natCast 2 k).trans_le h).trans_lt hhigh)
  obtain ⟨b, hbinary⟩ := Int.eq_ofNat_of_zero_le (a := binaryExponent x.num.natAbs x.den) (by omega)
  have hplace : lastPlace x.num.natAbs x.den ≤ b := by
    rw [lastPlace]
    omega
  rw [hbinary, zpow_natCast, pow_eq_multiple hplace] at hlow
  calc (2 : Rat) ^ k ≤ 2 ^ b := pow_le_pow_right₀ one_le_two (by omega)
    _ = _ := pow_eq_multiple hplace
    _ ≤ (round x).value := le_round_of_multiple_le hx hlow

theorem overflows_eq_false_iff {a : Binary64} : a.overflows = false ↔ |a.value| < 2 ^ 1024 := by
  have hden : (0 : Rat) < a.value.den := by exact_mod_cast a.value.den_pos
  rw [abs_eq_div, div_lt_iff₀ hden, ← cast_twoTo, overflows, decide_eq_false_iff_not, not_le,
    Nat.div_lt_iff_lt_mul a.value.den_pos]
  exact_mod_cast Iff.rfl

/-! ## Doubles in layouts -/

theorem IsDouble.sub_zero_eq {x : Binary64} (h : x.IsDouble) : x - 0 = x := by
  have hzero : (0 : Binary64).value = 0 := rfl
  rw [sub_def, hzero, sub_zero]
  exact h

theorem max_value (x y : Binary64) : (max x y).value = max x.value y.value := by
  have hmax : max x y = if x ≤ y then y else x := rfl
  rw [hmax]
  split
  · next h => exact (max_eq_right h).symm
  · next h => exact (max_eq_left (le_of_not_ge h)).symm

theorem min_value (x y : Binary64) : (min x y).value = min x.value y.value := by
  have hmin : min x y = if x ≤ y then x else y := rfl
  rw [hmin]
  split
  · next h => exact (min_eq_left h).symm
  · next h => exact (min_eq_right (le_of_not_ge h)).symm

end MessageCard.Binary64
