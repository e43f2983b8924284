import Mathlib.Data.Nat.Log
import Mathlib.Data.Rat.Floor
import MessageCard.Proofs.Binary64.Order

/-!
# The integer nearest to a quotient

A quotient of two integers is rounded to a double before it is rounded to an integer. When the
integers are not too large this comes to the same as rounding once: a quotient below the half of an
integer is so by at least a part of its denominator, and there is a double between the two.
-/
namespace MessageCard.Binary64

theorem isDouble_natCast {n : Nat} (hn : n ≤ 2 ^ 53) : IsDouble ⟨n⟩ := by
  refine isDouble_of_digits hn (e := 0) (by decide) ?_
  rw [zpow_zero, mul_one, Nat.abs_cast]

theorem value_natCast {n : Nat} (hn : n ≤ 2 ^ 53) : (n : Binary64).value = n :=
  congrArg value (isDouble_natCast hn)

theorem value_intCast {i : Int} (hlow : 0 ≤ i) (hhigh : i ≤ 2 ^ 53) : (i : Binary64).value = i := by
  obtain ⟨n, rfl⟩ := Int.eq_ofNat_of_zero_le hlow
  exact value_natCast (by exact_mod_cast hhigh)

theorem natCast_mul_natCast {m n : Nat} (hm : m ≤ 2 ^ 53) (hn : n ≤ 2 ^ 53) :
    (m : Binary64) * n = (m * n : Nat) := by
  rw [mul_def, value_natCast hm, value_natCast hn, ← Nat.cast_mul]
  rfl

/-! ## Halves of integers -/

theorem floor_add_half (n : Nat) {d : Nat} (hd : 0 < d) :
    ⌊(n / d : Rat) + 1 / 2⌋ = ((2 * n + d) / (2 * d) : Nat) := by
  have hd' : (d : Rat) ≠ 0 := by exact_mod_cast hd.ne'
  have hsum : (n / d : Rat) + 1 / 2 = ((2 * n + d : Nat) : Rat) / ((2 * d : Nat) : Rat) := by
    push_cast
    field_simp
  rw [hsum, Rat.floor_natCast_div_natCast]
  exact (Int.natCast_div _ _).symm

theorem nearestInt_eq_floor {a : Binary64} (ha : 0 ≤ a.value) :
    a.nearestInt = ⌊a.value + 1 / 2⌋ := by
  obtain ⟨n, hn⟩ := Int.eq_ofNat_of_zero_le (Rat.num_nonneg.mpr ha)
  have hvalue : a.value = n / a.value.den := by
    conv_lhs => rw [← Rat.num_div_den a.value, hn, Int.cast_natCast]
  rw [hvalue, floor_add_half n a.value.den_pos, nearestInt, hn, Int.natAbs_natCast]
  rcases Nat.eq_zero_or_pos n with rfl | hpos
  · rw [Nat.mul_zero, Nat.zero_add, Nat.div_eq_of_lt (by have := a.value.den_pos; omega)]
    rfl
  · rw [Int.sign_natCast_of_ne_zero hpos.ne', Int.one_mul]

theorem isDouble_half {k : Nat} (hk : k ≤ 2 ^ 53) : IsDouble ⟨(k : Rat) / 2⟩ := by
  refine isDouble_of_digits hk (e := -1) (by decide) ?_
  rw [abs_of_nonneg (by positivity), zpow_neg_one, div_eq_mul_inv]

/-- An integer is rounded to a number whose half is a double. -/
theorem isDouble_half_round (n : Nat) : IsDouble ⟨(round n).value / 2⟩ := by
  rcases Nat.eq_zero_or_pos n with rfl | hn
  · have hzero : (round ((0 : Nat) : Rat)).value = ((0 : Nat) : Rat) := by simp [round]
    rw [hzero]
    exact isDouble_half (Nat.zero_le _)
  have hx : (0 : Rat) < n := by exact_mod_cast hn
  have hnum : (n : Rat).num ≠ 0 := (Rat.num_pos.mpr hx).ne'
  have hhigh := (binaryExponent_bounds (Int.natAbs_pos.mpr hnum) (n : Rat).den_pos).2
  rw [natAbs_div_den hx] at hhigh
  have hone : (2 : Rat) ^ (0 : Int) ≤ n := by exact_mod_cast hn
  have hexponent := (zpow_lt_zpow_iff_right₀ (one_lt_two (α := Rat))).mp (hone.trans_lt hhigh)
  have hplace : -52 ≤ lastPlace (n : Rat).num.natAbs (n : Rat).den := by
    rw [lastPlace]
    omega
  refine isDouble_of_digits (digits_le hnum)
    (e := lastPlace (n : Rat).num.natAbs (n : Rat).den - 1) (by omega) ?_
  rw [abs_of_nonneg (div_nonneg (round_nonneg hx) two_pos.le), round_value_of_pos hx,
    zpow_sub_one₀ two_ne_zero, div_eq_mul_inv, mul_assoc]

theorem half_le_round {p w k : Nat} (hw : 0 < w) (hle : k * w ≤ 2 * p) (hk : k ≤ 2 ^ 53) :
    (k : Rat) / 2 ≤ (round ((p : Rat) / w)).value := by
  have hw' : (0 : Rat) < w := by exact_mod_cast hw
  have hquotient : (k : Rat) / 2 ≤ p / w := by
    rw [div_le_div_iff₀ two_pos hw', mul_comm (p : Rat)]
    exact_mod_cast hle
  calc (k : Rat) / 2 = (round ((k : Rat) / 2)).value := (congrArg value (isDouble_half hk)).symm
    _ ≤ _ := round_le_round (by positivity) hquotient

/-- A quotient below a half is not rounded up to it. -/
theorem round_lt_half {p w k : Nat} (hw : 0 < w) (hlt : 2 * p < k * w) (hsmall : k * w ≤ 2 ^ 52) :
    (round ((p : Rat) / w)).value < (k : Rat) / 2 := by
  have hk : 0 < k := Nat.pos_of_mul_pos_right ((Nat.zero_le _).trans_lt hlt)
  have hlow := Nat.pow_log_le_self 2 hw.ne'
  have hhigh := Nat.lt_pow_succ_log_self one_lt_two w
  generalize Nat.log 2 w = e at hlow hhigh
  -- The double just below the half, at a place finer than the denominator.
  obtain ⟨m, hm⟩ : ∃ m, k * 2 ^ (e + 1) = m + 1 :=
    Nat.exists_eq_add_one.mpr (Nat.mul_pos hk (Nat.two_pow_pos _))
  have hdigits : m ≤ 2 ^ 53 :=
    calc m ≤ k * 2 ^ (e + 1) := by omega
      _ = 2 * (k * 2 ^ e) := by ring
      _ ≤ 2 * (k * w) := Nat.mul_le_mul_left _ (Nat.mul_le_mul_left _ hlow)
      _ ≤ 2 * 2 ^ 52 := Nat.mul_le_mul_left _ hsmall
  have hplace : e ≤ 52 := by
    refine (Nat.pow_le_pow_iff_right one_lt_two).mp (hlow.trans ?_)
    exact (Nat.le_mul_of_pos_left w hk).trans hsmall
  have hdouble : IsDouble ⟨(m : Rat) / 2 ^ (e + 2)⟩ := by
    refine isDouble_of_digits hdigits (e := -((e + 2 : Nat) : Int)) (by omega) ?_
    rw [abs_of_nonneg (by positivity), zpow_neg, zpow_natCast, div_eq_mul_inv]
  have hquotient : (p : Rat) / w ≤ m / 2 ^ (e + 2) := by
    have hw' : (0 : Rat) < w := by exact_mod_cast hw
    have hproducts : p * 2 ^ (e + 2) ≤ m * w := by
      have hscaled : (2 * p + 1) * 2 ^ (e + 1) ≤ (m + 1) * w :=
        calc (2 * p + 1) * 2 ^ (e + 1) ≤ k * w * 2 ^ (e + 1) := Nat.mul_le_mul_right _ hlt
          _ = k * 2 ^ (e + 1) * w := by ring
          _ = (m + 1) * w := by rw [hm]
      rw [Nat.succ_eq_add_one] at hhigh
      rw [pow_succ _ (e + 1)]
      linarith
    rw [div_le_div_iff₀ hw' (by positivity)]
    exact_mod_cast hproducts
  calc (round ((p : Rat) / w)).value ≤ (round ((m : Rat) / 2 ^ (e + 2))).value :=
        round_le_round (by positivity) hquotient
    _ = m / 2 ^ (e + 2) := congrArg value hdouble
    _ < (m + 1 : Nat) / 2 ^ (e + 2) := by
        gcongr
        exact_mod_cast Nat.lt_succ_self m
    _ = k / 2 := by
        rw [← hm]
        push_cast
        rw [pow_succ _ (e + 1)]
        field_simp

/-! ## Quotients -/

/-- A quotient of integers that are not too large has the nearest integer of the exact quotient. -/
theorem nearestInt_div {p w : Nat} (hw : 0 < w) (hsmall : p + w ≤ 2 ^ 50) :
    ((p : Binary64) / w).nearestInt = ((2 * p + w) / (2 * w) : Nat) := by
  have hnonneg : 0 ≤ (round ((p : Rat) / w)).value :=
    round_le_round le_rfl (by positivity : (0 : Rat) ≤ p / w)
  rw [div_def, value_natCast (by omega), value_natCast (by omega), nearestInt_eq_floor hnonneg,
    Int.floor_eq_iff, Int.cast_natCast]
  have hlow := Nat.div_mul_le_self (2 * p + w) (2 * w)
  have hhigh := Nat.lt_div_mul_add (a := 2 * p + w) (b := 2 * w) (by omega)
  generalize (2 * p + w) / (2 * w) = k at hlow hhigh
  constructor
  · cases k with
    | zero =>
      rw [Nat.cast_zero]
      linarith
    | succ j =>
      have hodd : (2 * j + 1) * w ≤ 2 * p := by linarith
      have hbound : 2 * j + 1 ≤ 2 ^ 53 := (Nat.le_mul_of_pos_right _ hw).trans (by omega)
      have hhalf := half_le_round hw hodd hbound
      push_cast at hhalf ⊢
      linarith
  · have hodd : 2 * p < (2 * k + 1) * w := by linarith
    have hbound : (2 * k + 1) * w ≤ 2 ^ 52 := by linarith
    have hhalf := round_lt_half hw hodd hbound
    push_cast at hhalf
    linarith

end MessageCard.Binary64
