import MessageCard.Binary64.Digits
import MessageCard.Proofs.Binary64.Rounding

/-!
# The shortest decimal number reads back

A double is written with as few decimal digits as still tell it from other doubles. What is found is
a number in the window of the double, and all numbers there are rounded to it: the window reaches
half a last place to either side, or a quarter below a power of two, and has its ends if the double
is an even multiple of its last place. A decimal grid that meets the window is reached in time, as
seventeen digits always suffice.
-/
namespace MessageCard.Binary64

/-! ## Numbers that are rounded to a double -/

theorem nearestEven_eq {n d k : Nat} (hlow : 2 * (k * d) ≤ 2 * n + d)
    (hhigh : 2 * n ≤ 2 * (k * d) + d)
    (htie : k % 2 = 0 ∨ (2 * (k * d) < 2 * n + d ∧ 2 * n < 2 * (k * d) + d)) (hd : 0 < d) :
    nearestEven n d = k := by
  have hdiv : d * (n / d) + n % d = n := Nat.div_add_mod n d
  have hmod : n % d < d := Nat.mod_lt n hd
  simp only [nearestEven]
  generalize n / d = q at hdiv ⊢
  generalize n % d = r at hdiv hmod ⊢
  have hle : k ≤ q + 1 := by
    by_contra hlt
    have hmul : (q + 2) * d ≤ k * d := Nat.mul_le_mul_right d (by omega)
    rw [Nat.add_mul, Nat.mul_comm q d] at hmul
    omega
  have hge : q ≤ k := by
    by_contra hlt
    have hmul : (k + 1) * d ≤ q * d := Nat.mul_le_mul_right d (by omega)
    rw [Nat.add_mul, Nat.mul_comm q d] at hmul
    omega
  obtain rfl | rfl : k = q ∨ k = q + 1 := by omega
  · rw [Nat.mul_comm k d] at *
    split
    · rfl
    · split
      · omega
      · split <;> omega
  · rw [Nat.add_mul, Nat.mul_comm q d] at *
    split
    · omega
    · split
      · rfl
      · split <;> omega

theorem lastPlace_eq {n d : Nat} (hn : 0 < n) (hd : 0 < d) {e : Int} (he : -1074 ≤ e)
    (hlow : (2 : Rat) ^ (e + 52) ≤ n / d ∨ e = -1074) (hhigh : (n / d : Rat) < 2 ^ (e + 53)) :
    lastPlace n d = e := by
  obtain ⟨hb, hb'⟩ := binaryExponent_bounds hn hd
  have hle := (zpow_lt_zpow_iff_right₀ (one_lt_two (α := Rat))).mp (hb.trans_lt hhigh)
  rw [lastPlace]
  rcases hlow with hlow | hlow
  · have hge := (zpow_lt_zpow_iff_right₀ (one_lt_two (α := Rat))).mp (hlow.trans_lt hb')
    omega
  · omega

/-- A fraction at a place, as the quotient of two whole numbers. -/
theorem mul_twoTo_eq {x : Rat} (hx : 0 < x) (e : Int) :
    ((x.num.natAbs * twoTo (-e).toNat : Nat) : Rat) * 2 ^ e =
      x * ((x.den * twoTo e.toNat : Nat) : Rat) := by
  have hden : (x.den : Rat) ≠ 0 := by exact_mod_cast x.den_nz
  have hnum := (div_eq_iff hden).mp (natAbs_div_den hx)
  rw [Nat.cast_mul, Nat.cast_mul, mul_assoc, twoTo_neg_toNat, hnum, mul_assoc]

/-- A number within half a last place of a multiple is rounded to it. -/
theorem round_eq_of_near {x : Rat} (hx : 0 < x) {k : Nat} {e : Int}
    (he : lastPlace x.num.natAbs x.den = e) (hlow : (2 * k - 1) * (2 : Rat) ^ e ≤ 2 * x)
    (hhigh : 2 * x ≤ (2 * k + 1) * (2 : Rat) ^ e)
    (htie : k % 2 = 0 ∨
      ((2 * k - 1) * (2 : Rat) ^ e < 2 * x ∧ 2 * x < (2 * k + 1) * (2 : Rat) ^ e)) :
    (round x).value = k * (2 : Rat) ^ e := by
  have hpow : (0 : Rat) < 2 ^ e := by positivity
  have hscaled := mul_twoTo_eq hx e
  have hden : 0 < x.den * twoTo e.toNat :=
    Nat.mul_pos x.den_pos (by exact_mod_cast twoTo_pos e.toNat)
  rw [round_value_of_pos hx, he]
  generalize x.num.natAbs * twoTo (-e).toNat = n at hscaled ⊢
  generalize x.den * twoTo e.toNat = d at hscaled hden ⊢
  have hd : (0 : Rat) < d := by exact_mod_cast hden
  -- Comparisons with `x` at the place are comparisons with `n / d`.
  have hle : ∀ c : Rat, c * 2 ^ e ≤ 2 * x ↔ c * d ≤ 2 * n := by
    intro c
    rw [← mul_le_mul_iff_left₀ hd, mul_assoc 2 x, ← hscaled, mul_right_comm, ← mul_assoc,
      mul_le_mul_iff_left₀ hpow]
  have hge : ∀ c : Rat, 2 * x ≤ c * 2 ^ e ↔ 2 * n ≤ c * d := by
    intro c
    rw [← mul_le_mul_iff_left₀ hd, mul_assoc 2 x, ← hscaled, mul_right_comm c, ← mul_assoc,
      mul_le_mul_iff_left₀ hpow]
  have hlow := (hle _).mp hlow
  have hhigh := (hge _).mp hhigh
  rw [nearestEven_eq (k := k) ?_ ?_ (htie.imp_right fun h => ?_) hden]
  · have hcast : (2 * (k * d) : Rat) ≤ 2 * n + d := by linarith
    exact_mod_cast hcast
  · have hcast : (2 * n : Rat) ≤ 2 * (k * d) + d := by linarith
    exact_mod_cast hcast
  · have hlow := not_le.mp (mt (hge _).mpr h.1.not_ge)
    have hhigh := not_le.mp (mt (hle _).mpr h.2.not_ge)
    have hcast : (2 * (k * d) : Rat) < 2 * n + d ∧ (2 * n : Rat) < 2 * (k * d) + d := by
      constructor <;> linarith
    exact_mod_cast hcast

/-- A positive double as a multiple of its last place. -/
structure IsMultiple (a : Binary64) (m : Nat) (place : Int) : Prop where
  value_eq : a.value = m * (2 : Rat) ^ place
  place_ge : -1074 ≤ place
  lt : m < 2 ^ 53
  /-- All binary digits are used, except near zero. -/
  normal : 2 ^ 52 ≤ m ∨ place = -1074
  pos : 0 < m

namespace IsMultiple

variable {a : Binary64} {m : Nat} {place : Int}

theorem two_pow_le (h : IsMultiple a m place) : (2 : Rat) ^ (-1074 : Int) ≤ a.value := by
  have hone : (1 : Rat) ≤ m := by exact_mod_cast h.pos
  calc (2 : Rat) ^ (-1074 : Int) ≤ 2 ^ place := zpow_le_zpow_right₀ one_le_two h.place_ge
    _ ≤ m * 2 ^ place := le_mul_of_one_le_left (by positivity) hone
    _ = a.value := h.value_eq.symm

theorem value_lt (h : IsMultiple a m place) : a.value < 2 ^ 53 * 2 ^ place := by
  have hlt : (m : Rat) < 2 ^ 53 := by exact_mod_cast h.lt
  rw [h.value_eq]
  exact mul_lt_mul_of_pos_right hlt (by positivity)

end IsMultiple

/-- The quarters of the last place by which the window reaches below a double. -/
def below (m : Nat) (place : Int) : Nat := if m = twoTo 52 ∧ -1074 < place then 1 else 2

/-- A number in the window of a double. -/
structure IsNear (m : Nat) (place : Int) (x : Rat) : Prop where
  low : (4 * m - below m place) * (2 : Rat) ^ place ≤ 4 * x
  high : 4 * x ≤ (4 * m + 2) * (2 : Rat) ^ place
  tie : m % 2 = 0 ∨ ((4 * m - below m place) * (2 : Rat) ^ place < 4 * x ∧
    4 * x < (4 * m + 2) * (2 : Rat) ^ place)

theorem exists_isMultiple {a : Binary64} (ha : a.IsDouble) (hpos : 0 < a.value) :
    IsMultiple a (nearestEven
      (a.value.num.natAbs * twoTo (-lastPlace a.value.num.natAbs a.value.den).toNat)
      (a.value.den * twoTo (lastPlace a.value.num.natAbs a.value.den).toNat))
      (lastPlace a.value.num.natAbs a.value.den) := by
  have hnum : 0 < a.value.num.natAbs := Int.natAbs_pos.mpr (Rat.num_pos.mpr hpos).ne'
  have hvalue := round_value_of_pos hpos
  rw [show round a.value = a from ha] at hvalue
  obtain ⟨hlow, hhigh⟩ := binaryExponent_bounds hnum a.value.den_pos
  have hb := hlow.trans_eq ((natAbs_div_den hpos).trans hvalue)
  have hb' := (((natAbs_div_den hpos).trans hvalue).symm.trans_lt hhigh)
  have hplace : lastPlace a.value.num.natAbs a.value.den =
    max (binaryExponent a.value.num.natAbs a.value.den - 52) (-1074) := rfl
  generalize nearestEven _ _ = m at hvalue hb hb' ⊢
  generalize lastPlace a.value.num.natAbs a.value.den = place at *
  generalize binaryExponent a.value.num.natAbs a.value.den = b at *
  have hscale : (0 : Rat) < 2 ^ place := by positivity
  refine ⟨hvalue, by omega, ?_, or_iff_not_imp_right.mpr fun hne => ?_, ?_⟩
  · have hle : (2 : Rat) ^ (b + 1) ≤ 2 ^ 53 * 2 ^ place := by
      rw [← zpow_natCast, ← zpow_add₀ two_ne_zero]
      exact zpow_le_zpow_right₀ one_le_two (by omega)
    exact_mod_cast lt_of_mul_lt_mul_right (hb'.trans_le hle) hscale.le
  · have heq : (2 : Rat) ^ b = 2 ^ 52 * 2 ^ place := by
      rw [← zpow_natCast, ← zpow_add₀ two_ne_zero]
      congr 1
      omega
    exact_mod_cast le_of_mul_le_mul_right (heq.symm.trans_le hb) hscale
  · refine Nat.pos_of_ne_zero fun hm => ?_
    rw [hm, Nat.cast_zero, zero_mul] at hvalue
    exact hpos.ne' hvalue

theorem below_le (m : Nat) (place : Int) : (below m place : Rat) ≤ 2 := by
  rw [below]
  split <;> norm_num

namespace IsNear

variable {m : Nat} {place : Int} {x : Rat}

/-- The window is half a last place wide to either side at most. -/
theorem bounds (h : IsNear m place x) : (2 * m - 1) * (2 : Rat) ^ place ≤ 2 * x ∧
    2 * x ≤ (2 * m + 1) * (2 : Rat) ^ place := by
  have hscale : (0 : Rat) < 2 ^ place := by positivity
  have hlow := h.low
  have hhigh := h.high
  have hbelow := mul_le_mul_of_nonneg_right (below_le m place) hscale.le
  constructor <;> linarith

theorem strict_bounds (h : IsNear m place x) : m % 2 = 0 ∨
    ((2 * m - 1) * (2 : Rat) ^ place < 2 * x ∧ 2 * x < (2 * m + 1) * (2 : Rat) ^ place) := by
  have hscale : (0 : Rat) < 2 ^ place := by positivity
  have hbelow := mul_le_mul_of_nonneg_right (below_le m place) hscale.le
  refine h.tie.imp_right fun ⟨hlow, hhigh⟩ => ?_
  constructor <;> linarith

theorem pos (h : IsNear m place x) (hm : 0 < m) : 0 < x := by
  have hscale : (0 : Rat) < 2 ^ place := by positivity
  have hone : (1 : Rat) ≤ m := by exact_mod_cast hm
  have hmul := mul_le_mul_of_nonneg_right hone hscale.le
  have hlow := h.bounds.1
  linarith

theorem lt_pow (h : IsNear m place x) (hm : m < 2 ^ 53) : x < (2 : Rat) ^ (place + 53) := by
  have hscale : (0 : Rat) < 2 ^ place := by positivity
  have hlt : (m : Rat) + 1 ≤ 2 ^ 53 := by exact_mod_cast hm
  have hmul := mul_le_mul_of_nonneg_right hlt hscale.le
  rw [zpow_add₀ two_ne_zero, show (2 : Rat) ^ (53 : Int) = 2 ^ 53 from rfl]
  linarith [h.bounds.2]

/-- Only a power of two has numbers of the next lower magnitude in its window. -/
theorem eq_pow (h : IsNear m place x) (hm : 2 ^ 52 ≤ m) (hx : x < (2 : Rat) ^ (place + 52)) :
    m = 2 ^ 52 := by
  by_contra hne
  have hscale : (0 : Rat) < 2 ^ place := by positivity
  have hlt : (2 ^ 52 + 1 : Rat) ≤ m := by exact_mod_cast Nat.lt_of_le_of_ne hm (Ne.symm hne)
  have hmul := mul_le_mul_of_nonneg_right hlt hscale.le
  rw [zpow_add₀ two_ne_zero, show (2 : Rat) ^ (52 : Int) = 2 ^ 52 from rfl] at hx
  linarith [h.bounds.1]

theorem round_value_of_place {a : Binary64} (ha : IsMultiple a m place) (hx : IsNear m place x)
    (hplace : (2 : Rat) ^ (place + 52) ≤ x ∨ place = -1074) :
    (round x).value = m * (2 : Rat) ^ place := by
  have hpos := hx.pos ha.pos
  have hnum : 0 < x.num.natAbs := Int.natAbs_pos.mpr (Rat.num_pos.mpr hpos).ne'
  have hquotient := natAbs_div_den hpos
  have hlast : lastPlace x.num.natAbs x.den = place :=
    lastPlace_eq hnum x.den_pos ha.place_ge (hplace.imp_left hquotient.ge.trans')
      (hquotient.trans_lt (hx.lt_pow ha.lt))
  exact round_eq_of_near hpos hlast hx.bounds.1 hx.bounds.2 hx.strict_bounds

/-- Below a power of two the window reaches down a quarter of the place, which is half of the next
lower one. -/
theorem round_value_below_pow (hx : IsNear (2 ^ 52) place x) (hplace : -1074 < place)
    (hlt : x < (2 : Rat) ^ (place + 52)) :
    (round x).value = (2 ^ 52 : Nat) * (2 : Rat) ^ place := by
  have hpos := hx.pos (by decide)
  have hnum : 0 < x.num.natAbs := Int.natAbs_pos.mpr (Rat.num_pos.mpr hpos).ne'
  have hhalf : (2 : Rat) ^ place = 2 * 2 ^ (place - 1) := by
    rw [← zpow_one_add₀ two_ne_zero, add_sub_cancel]
  have hscale : (0 : Rat) < 2 ^ (place - 1) := by positivity
  have hlow := hx.low
  have hbelow : below (2 ^ 52) place = 1 := if_pos ⟨rfl, hplace⟩
  rw [hbelow, hhalf] at hlow
  push_cast at hlow
  have hlast : lastPlace x.num.natAbs x.den = place - 1 := by
    refine lastPlace_eq hnum x.den_pos (by omega) (.inl ?_) ?_ <;> rw [natAbs_div_den hpos]
    · rw [zpow_add₀ two_ne_zero, show (2 : Rat) ^ (52 : Int) = 2 ^ 52 from rfl]
      linarith
    · rwa [show place - 1 + 53 = place + 52 by ring]
  rw [zpow_add₀ two_ne_zero, show (2 : Rat) ^ (52 : Int) = 2 ^ 52 from rfl, hhalf] at hlt
  rw [round_eq_of_near (k := 2 ^ 53) hpos hlast ?_ ?_ (.inl (by decide)), hhalf]
  · push_cast
    ring
  · push_cast
    linarith
  · push_cast
    linarith

/-- All numbers in the window of a double are rounded to it. -/
theorem round_eq {a : Binary64} (ha : IsMultiple a m place) (hx : IsNear m place x) :
    round x = a := by
  have hvalue : (round x).value = m * (2 : Rat) ^ place := by
    by_cases hplace : (2 : Rat) ^ (place + 52) ≤ x ∨ place = -1074
    · exact hx.round_value_of_place ha hplace
    · rw [not_or, not_le] at hplace
      obtain ⟨hlt, hne⟩ := hplace
      obtain rfl := hx.eq_pow (ha.normal.resolve_right hne) hlt
      exact hx.round_value_below_pow (lt_of_le_of_ne ha.place_ge (Ne.symm hne)) hlt
  exact congrArg Binary64.mk (hvalue.trans ha.value_eq.symm)

end IsNear

/-! ## Decimal grids -/

theorem cast_tenTo (n : Nat) : (tenTo n : Rat) = 10 ^ n := by
  rw [show tenTo n = 10 ^ n from rfl]
  push_cast
  rfl

theorem tenTo_neg_toNat (e : Int) :
    (tenTo (-e).toNat : Rat) * (10 : Rat) ^ e = tenTo e.toNat := by
  rw [cast_tenTo, cast_tenTo, pow_neg_toNat (by norm_num)]

theorem Window.contains_of_multiple {w : Window} {unit k : Nat}
    (h : w.multiple unit = some k) : w.contains (k * unit) = true := by
  simp only [multiple] at h
  split at h
  · next hboth =>
    rw [Bool.and_eq_true] at hboth
    obtain rfl := Option.some.inj h
    split
    · exact hboth.1
    · exact hboth.2
  · split at h
    · next hbelow => exact Option.some.inj h ▸ hbelow
    · split at h
      · next habove => exact Option.some.inj h ▸ habove
      · cases h

/-- A grid that is fine enough meets the window. -/
theorem Window.multiple_ne_none {w : Window} {unit : Nat} (hunit : 0 < unit)
    (hlow : w.lower ≤ w.value) (hhigh : w.value + unit < w.upper) : w.multiple unit ≠ none := by
  have hdiv := Nat.div_add_mod w.value unit
  have hmod := Nat.mod_lt w.value hunit
  have hnext : (w.value / unit + 1) * unit = unit * (w.value / unit) + unit := by ring
  have habove : w.contains ((w.value / unit + 1) * unit) = true := by
    rw [contains, hnext]
    split <;> simp only [Bool.and_eq_true, decide_eq_true_eq] <;> omega
  simp only [multiple, habove, Bool.and_true, if_true]
  split <;> exact Option.some_ne_none _

/-- The window of a double on the grid of an exponent. -/
def window (m : Nat) (place exponent : Int) : Window :=
  let ulp := twoTo place.toNat * tenTo (-exponent).toNat
  ⟨(4 * m - below m place) * ulp, 4 * m * ulp, (4 * m + 2) * ulp, m % 2 == 0⟩

/-- A step of the grid of an exponent. -/
def gridStep (place exponent : Int) : Nat :=
  4 * tenTo exponent.toNat * twoTo (-place).toNat

section Grids

variable {m : Nat} {place exponent : Int}

theorem firstGrid_of_some {k : Nat}
    (h : (window m place exponent).multiple (gridStep place exponent) = some k) (fuel : Nat) :
    firstGrid m place (fuel + 1) exponent = ⟨k, exponent⟩ := by
  simp only [firstGrid]
  split
  · next hk =>
    cases hk.symm.trans h
    rfl
  · next hnone => cases hnone.symm.trans h

theorem firstGrid_of_none
    (h : (window m place exponent).multiple (gridStep place exponent) = none) (fuel : Nat) :
    firstGrid m place (fuel + 1) exponent = firstGrid m place fuel (exponent - 1) := by
  simp only [firstGrid]
  split
  · next hk => cases hk.symm.trans h
  · rfl

/-- The unit in which a window is measured, as a multiple of the last place. -/
theorem cast_ulp (place exponent : Int) :
    ((twoTo place.toNat * tenTo (-exponent).toNat : Nat) : Rat) =
      2 ^ place * (twoTo (-place).toNat * tenTo (-exponent).toNat) := by
  rw [Nat.cast_mul, ← twoTo_neg_toNat]
  ring

theorem cast_gridStep (place exponent : Int) : (gridStep place exponent : Rat) =
    4 * 10 ^ exponent * (twoTo (-place).toNat * tenTo (-exponent).toNat) := by
  rw [gridStep, Nat.cast_mul, Nat.cast_mul, ← tenTo_neg_toNat]
  push_cast
  ring

theorem scale_pos (place exponent : Int) :
    (0 : Rat) < twoTo (-place).toNat * tenTo (-exponent).toNat := by
  rw [cast_twoTo, cast_tenTo]
  positivity

theorem cast_lower (hm : 0 < m) :
    ((4 * m - below m place : Nat) : Rat) = 4 * m - below m place := by
  have hle : below m place ≤ 4 * m := by
    rw [below]
    split <;> omega
  rw [Nat.cast_sub hle]
  push_cast
  rfl

/-- A point of the grid that the window contains is in the window of the double. -/
theorem isNear_of_contains (hm : 0 < m) {k : Nat}
    (h : (window m place exponent).contains (k * gridStep place exponent) = true) :
    IsNear m place (k * 10 ^ exponent) := by
  have hscale := scale_pos place exponent
  have hlower : ((window m place exponent).lower : Rat) = (4 * m - below m place) * 2 ^ place *
      (twoTo (-place).toNat * tenTo (-exponent).toNat) := by
    rw [mul_assoc, ← cast_ulp, ← cast_lower hm, ← Nat.cast_mul]
    rfl
  have hupper : ((window m place exponent).upper : Rat) = (4 * m + 2) * 2 ^ place *
      (twoTo (-place).toNat * tenTo (-exponent).toNat) := by
    rw [mul_assoc, ← cast_ulp]
    exact_mod_cast rfl
  have hpoint : ((k * gridStep place exponent : Nat) : Rat) = 4 * (k * 10 ^ exponent) *
      (twoTo (-place).toNat * tenTo (-exponent).toNat) := by
    rw [Nat.cast_mul, cast_gridStep]
    ring
  simp only [Window.contains] at h
  split at h
  · next hclosed =>
    rw [Bool.and_eq_true, decide_eq_true_eq, decide_eq_true_eq, ← Nat.cast_le (α := Rat),
      ← Nat.cast_le (α := Rat), hlower, hupper, hpoint, mul_le_mul_iff_left₀ hscale,
      mul_le_mul_iff_left₀ hscale] at h
    exact ⟨h.1, h.2, .inl (beq_iff_eq.mp hclosed)⟩
  · rw [Bool.and_eq_true, decide_eq_true_eq, decide_eq_true_eq, ← Nat.cast_lt (α := Rat),
      ← Nat.cast_lt (α := Rat), hlower, hupper, hpoint, mul_lt_mul_iff_left₀ hscale,
      mul_lt_mul_iff_left₀ hscale] at h
    exact ⟨h.1.le, h.2.le, .inr h⟩

/-- A grid of less than half a last place meets the window. -/
theorem multiple_ne_none (h : 2 * (10 : Rat) ^ exponent < 2 ^ place) :
    (window m place exponent).multiple (gridStep place exponent) ≠ none := by
  have hscale := scale_pos place exponent
  have hstep : gridStep place exponent < 2 * (twoTo place.toNat * tenTo (-exponent).toNat) := by
    have hmul := mul_lt_mul_of_pos_right h hscale
    rw [← Nat.cast_lt (α := Rat), Nat.cast_mul, cast_ulp, cast_gridStep]
    push_cast
    linarith
  have hpos : 0 < gridStep place exponent := by
    rw [← Nat.cast_pos (α := Rat), cast_gridStep]
    positivity
  refine Window.multiple_ne_none hpos (Nat.mul_le_mul_right _ (Nat.sub_le _ _)) ?_
  simp only [window, Nat.add_mul]
  omega

/-- The search ends at a number in the window if it comes to a grid that is fine enough. -/
theorem firstGrid_isNear (hm : 0 < m) (fuel : Nat)
    (h : 2 * (10 : Rat) ^ (exponent - fuel) < 2 ^ place) :
    IsNear m place ((firstGrid m place (fuel + 1) exponent).digits *
      10 ^ (firstGrid m place (fuel + 1) exponent).exponent) := by
  induction fuel generalizing exponent with
  | zero =>
    obtain ⟨k, hk⟩ := Option.ne_none_iff_exists'.mp (multiple_ne_none (by simpa using h))
    rw [firstGrid_of_some hk]
    exact isNear_of_contains hm (Window.contains_of_multiple hk)
  | succ fuel ih =>
    cases hmultiple : (window m place exponent).multiple (gridStep place exponent) with
    | some k =>
      rw [firstGrid_of_some hmultiple]
      exact isNear_of_contains hm (Window.contains_of_multiple hmultiple)
    | none =>
      rw [firstGrid_of_none hmultiple]
      exact ih (by rwa [sub_sub, add_comm (1 : Int), ← Nat.cast_succ])

end Grids

/-! ## The first grid -/

/-- The estimate of the decimal exponent from the binary one is not too high, for all exponents
that doubles have. -/
theorem estimate_le : ∀ i : Fin 2098, tenTo (((i : Int) - 1074) * 30103 / 100000).toNat *
    twoTo (-((i : Int) - 1074)).toNat ≤ 100 * (twoTo ((i : Int) - 1074).toNat *
      tenTo (-(((i : Int) - 1074) * 30103 / 100000)).toNat) := by
  decide +kernel

theorem tenTo_mul_le_iff {n d : Nat} (hd : 0 < d) (e : Int) :
    tenTo e.toNat * d ≤ n * tenTo (-e).toNat ↔ (10 : Rat) ^ e ≤ n / d := by
  have hpos : (0 : Rat) < d := by exact_mod_cast hd
  have hscale : (0 : Rat) < tenTo (-e).toNat := by
    rw [cast_tenTo]
    positivity
  rw [le_div_iff₀ hpos, ← Nat.cast_le (α := Rat), Nat.cast_mul, Nat.cast_mul, ← tenTo_neg_toNat e,
    mul_assoc, mul_comm (n : Rat), mul_le_mul_iff_right₀ hscale]

/-- The grid with which the search starts is not much coarser than the number. -/
theorem decimalExponent_le {n d : Nat} (hn : 0 < n) (hd : 0 < d)
    (hlow : (2 : Rat) ^ (-1074 : Int) ≤ n / d) (hhigh : (n / d : Rat) < 2 ^ (1024 : Int)) :
    (10 : Rat) ^ decimalExponent n d ≤ 100 * (n / d) := by
  obtain ⟨hb, hb'⟩ := binaryExponent_bounds hn hd
  have hmin := (zpow_lt_zpow_iff_right₀ (one_lt_two (α := Rat))).mp (hlow.trans_lt hb')
  have hmax := (zpow_lt_zpow_iff_right₀ (one_lt_two (α := Rat))).mp (hb.trans_lt hhigh)
  simp only [decimalExponent]
  generalize binaryExponent n d = b at *
  split
  · next h =>
    have hle := (tenTo_mul_le_iff hd _).mp h
    have hpos : (0 : Rat) < n / d := lt_of_lt_of_le (by positivity) hle
    linarith
  · have hestimate := estimate_le ⟨(b + 1074).toNat, by omega⟩
    have hindex : (((b + 1074).toNat : Nat) : Int) - 1074 = b := by omega
    simp only [hindex] at hestimate
    generalize b * 30103 / 100000 = e at hestimate ⊢
    have hscale := scale_pos b e
    rw [← Nat.cast_le (α := Rat)] at hestimate
    push_cast at hestimate
    rw [← tenTo_neg_toNat e, ← twoTo_neg_toNat b] at hestimate
    have hle : (10 : Rat) ^ e ≤ 100 * 2 ^ b := by
      rw [← mul_le_mul_iff_left₀ hscale]
      linarith
    linarith

/-! ## The shortest number -/

end MessageCard.Binary64

namespace MessageCard

/-- The rational that a decimal number denotes. -/
def Decimal.value (x : Decimal) : Rat := x.digits * (10 : Rat) ^ x.exponent

namespace Binary64

theorem value_trimmed (fuel : Nat) (x : Decimal) : (Decimal.trimmed fuel x).value = x.value := by
  induction fuel generalizing x with
  | zero => rfl
  | succ fuel ih =>
    rw [Decimal.trimmed]
    split
    · next h =>
      have hdigits : x.digits = x.digits / 10 * 10 := by omega
      have hcast : (x.digits : Rat) = (x.digits / 10 : Nat) * 10 := by exact_mod_cast hdigits
      rw [ih, Decimal.value, Decimal.value, hcast, zpow_add₀ (by norm_num), zpow_one]
      ring
    · rfl

/-- The shortest decimal number is in the window of its double. -/
theorem exists_isNear_shortest {a : Binary64} (ha : a.IsDouble) (hpos : 0 < a.value)
    (hhigh : a.value < 2 ^ 1024) :
    ∃ m place, IsMultiple a m place ∧ IsNear m place a.shortest.value := by
  have hnum : 0 < a.value.num.natAbs := Int.natAbs_pos.mpr (Rat.num_pos.mpr hpos).ne'
  have hmultiple := exists_isMultiple ha hpos
  refine ⟨_, _, hmultiple, ?_⟩
  rw [shortest]
  simp only [hnum.ne', if_false, value_trimmed]
  refine firstGrid_isNear hmultiple.pos 19 ?_
  have hquotient := natAbs_div_den hpos
  have hgrid := decimalExponent_le hnum a.value.den_pos
    (hmultiple.two_pow_le.trans_eq hquotient.symm) (hquotient.trans_lt hhigh)
  have hlt := hmultiple.value_lt
  rw [hquotient] at hgrid
  rw [zpow_sub₀ (by norm_num), ← mul_div_assoc, div_lt_iff₀ (by positivity)]
  norm_num at hlt ⊢
  linarith

/-- The shortest decimal number of a double is rounded to it. -/
theorem round_shortest {a : Binary64} (ha : a.IsDouble) (hpos : 0 < a.value)
    (hhigh : a.value < 2 ^ 1024) : round a.shortest.value = a := by
  obtain ⟨m, place, hmultiple, hnear⟩ := exists_isNear_shortest ha hpos hhigh
  exact hnear.round_eq hmultiple

/-- The shortest decimal number of a double is within the range of doubles, or near it. -/
theorem shortest_mem {a : Binary64} (ha : a.IsDouble) (hpos : 0 < a.value)
    (hhigh : a.value < 2 ^ 1024) : (10 : Rat) ^ (-400 : Int) ≤ a.shortest.value ∧
      a.shortest.value < (10 : Rat) ^ (400 : Int) := by
  obtain ⟨m, place, hmultiple, hnear⟩ := exists_isNear_shortest ha hpos hhigh
  have hscale : (0 : Rat) < 2 ^ place := by positivity
  have hone : (1 : Rat) ≤ m := by exact_mod_cast hmultiple.pos
  have hmul := mul_le_mul_of_nonneg_right hone hscale.le
  obtain ⟨hlow, hup⟩ := hnear.bounds
  have hleast := hmultiple.two_pow_le
  rw [hmultiple.value_eq] at hleast hhigh
  have hten : (2 : Rat) ^ 1200 ≤ 10 ^ 400 := by
    rw [show 1200 = 3 * 400 from rfl, pow_mul]
    exact pow_le_pow_left₀ (by norm_num) (by norm_num) 400
  constructor
  · calc (10 : Rat) ^ (-400 : Int) ≤ 2 ^ (-1200 : Int) := by
          rw [zpow_neg, zpow_neg]
          exact inv_anti₀ (by positivity) hten
      _ ≤ 2 ^ (-1075 : Int) := zpow_le_zpow_right₀ one_le_two (by norm_num)
      _ = 2 ^ (-1074 : Int) / 2 := by
          rw [show (-1074 : Int) = -1075 + 1 from rfl, zpow_add₀ two_ne_zero, zpow_one]
          ring
      _ ≤ a.shortest.value := by linarith
  · have hdouble : a.shortest.value ≤ 2 * (m * 2 ^ place) := by linarith
    calc a.shortest.value < 2 * 2 ^ 1024 :=
          hdouble.trans_lt (mul_lt_mul_of_pos_left hhigh two_pos)
      _ = 2 ^ 1025 := by rw [← pow_succ']
      _ ≤ 2 ^ 1200 := pow_le_pow_right₀ one_le_two (by decide)
      _ ≤ 10 ^ 400 := hten
      _ = (10 : Rat) ^ (400 : Int) := (zpow_natCast 10 400).symm

end Binary64
end MessageCard
