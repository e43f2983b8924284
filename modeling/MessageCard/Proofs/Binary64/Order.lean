import MessageCard.Proofs.Binary64.Rounding

/-!
# Rounding keeps the order

Of two numbers the greater one is never rounded to less. At one last place this is so for the
multiples that are taken, as ties go to the even one; and between numbers of different last places
lies a power of two, which rounding does not cross. So products with a number that is not negative
keep the order too.
-/
namespace MessageCard.Binary64

/-! ## At one place -/

/-- The natural number nearest to a fraction is at most a half away from it, and is even if it is
just a half away. -/
theorem nearestEven_near {n d : Nat} (hd : 0 < d) :
    2 * (nearestEven n d * d) ≤ 2 * n + d ∧ 2 * n ≤ 2 * (nearestEven n d * d) + d ∧
      (nearestEven n d % 2 = 0 ∨
        2 * (nearestEven n d * d) < 2 * n + d ∧ 2 * n < 2 * (nearestEven n d * d) + d) := by
  have hdiv : n / d * d + n % d = n := Nat.div_add_mod' n d
  have hmod : n % d < d := Nat.mod_lt n hd
  simp only [nearestEven]
  generalize n / d = q at hdiv ⊢
  generalize n % d = r at hdiv hmod ⊢
  have hsucc : (q + 1) * d = q * d + d := Nat.succ_mul q d
  split
  · omega
  · split
    · rw [hsucc]
      omega
    · split
      · omega
      · rw [hsucc]
        omega

/-- Of two fractions the greater one has no smaller nearest number. -/
theorem nearestEven_le_nearestEven {n d n' d' : Nat} (hd : 0 < d) (hd' : 0 < d')
    (h : n * d' ≤ n' * d) : nearestEven n d ≤ nearestEven n' d' := by
  obtain ⟨hlow, -, htie⟩ := nearestEven_near (n := n) hd
  obtain ⟨-, hhigh, htie'⟩ := nearestEven_near (n := n') hd'
  generalize nearestEven n d = k at *
  generalize nearestEven n' d' = k' at *
  by_contra hlt
  -- Over the common denominator both fractions are the half between two neighbours.
  have hscale : 0 < d * d' := Nat.mul_pos hd hd'
  have hlow' : 2 * (k * (d * d')) ≤ 2 * (n * d') + d * d' := by
    have hmul := Nat.mul_le_mul_right d' hlow
    linarith
  have hhigh' : 2 * (n' * d) ≤ 2 * (k' * (d * d')) + d * d' := by
    have hmul := Nat.mul_le_mul_right d hhigh
    linarith
  have hstep : (k' + 1) * (d * d') ≤ k * (d * d') := Nat.mul_le_mul_right _ (by omega)
  rw [Nat.succ_mul] at hstep
  have heven : k % 2 = 0 := by
    refine htie.resolve_right fun hstrict => ?_
    have hmul := Nat.mul_lt_mul_of_pos_right hstrict.1 hd'
    linarith
  have heven' : k' % 2 = 0 := by
    refine htie'.resolve_right fun hstrict => ?_
    have hmul := Nat.mul_lt_mul_of_pos_right hstrict.2 hd
    linarith
  have hsame : k * (d * d') = (k' + 1) * (d * d') := by
    rw [Nat.succ_mul]
    omega
  have hnext : k = k' + 1 := Nat.eq_of_mul_eq_mul_right hscale hsame
  omega

/-! ## At all places -/

/-- Rounding keeps the order of positive numbers. -/
theorem round_le_round_of_pos {x y : Rat} (hx : 0 < x) (h : x ≤ y) :
    (round x).value ≤ (round y).value := by
  have hy : 0 < y := hx.trans_le h
  obtain ⟨hlow, hhigh⟩ :=
    binaryExponent_bounds (Int.natAbs_pos.mpr (Rat.num_pos.mpr hx).ne') x.den_pos
  obtain ⟨hlow', hhigh'⟩ :=
    binaryExponent_bounds (Int.natAbs_pos.mpr (Rat.num_pos.mpr hy).ne') y.den_pos
  rw [natAbs_div_den hx] at hlow hhigh
  rw [natAbs_div_den hy] at hlow' hhigh'
  have hplace : lastPlace x.num.natAbs x.den =
      max (binaryExponent x.num.natAbs x.den - 52) (-1074) := rfl
  have hplace' : lastPlace y.num.natAbs y.den =
      max (binaryExponent y.num.natAbs y.den - 52) (-1074) := rfl
  have hexponent : binaryExponent x.num.natAbs x.den < binaryExponent y.num.natAbs y.den + 1 :=
    (zpow_lt_zpow_iff_right₀ (one_lt_two (α := Rat))).mp (hlow.trans_lt (h.trans_lt hhigh'))
  by_cases hsame : lastPlace x.num.natAbs x.den = lastPlace y.num.natAbs y.den
  · rw [round_value_of_pos hx, round_value_of_pos hy, hsame]
    have hscale : 0 < twoTo (lastPlace y.num.natAbs y.den).toNat := by
      exact_mod_cast twoTo_pos _
    have hfractions : x.num.natAbs * y.den ≤ y.num.natAbs * x.den := by
      have hden : (0 : Rat) < x.den := by exact_mod_cast x.den_pos
      have hden' : (0 : Rat) < y.den := by exact_mod_cast y.den_pos
      rw [← natAbs_div_den hx, ← natAbs_div_den hy, div_le_div_iff₀ hden hden'] at h
      exact_mod_cast h
    gcongr
    refine nearestEven_le_nearestEven (Nat.mul_pos x.den_pos hscale)
      (Nat.mul_pos y.den_pos hscale) ?_
    generalize twoTo (-lastPlace y.num.natAbs y.den).toNat = up
    generalize twoTo (lastPlace y.num.natAbs y.den).toNat = down
    calc x.num.natAbs * up * (y.den * down) = x.num.natAbs * y.den * (up * down) := by ring
      _ ≤ y.num.natAbs * x.den * (up * down) := Nat.mul_le_mul_right _ hfractions
      _ = y.num.natAbs * up * (x.den * down) := by ring
  -- Else the greater number has the greater exponent, and its power of two lies between them.
  · obtain ⟨k, hk⟩ := exists_multiple (e := lastPlace x.num.natAbs x.den)
      (f := binaryExponent y.num.natAbs y.den) (by omega) 1
    obtain ⟨k', hk'⟩ := exists_multiple (e := lastPlace y.num.natAbs y.den)
      (f := binaryExponent y.num.natAbs y.den) (by omega) 1
    rw [Nat.cast_one, one_mul] at hk hk'
    have hbelow : x < 2 ^ binaryExponent y.num.natAbs y.den :=
      hhigh.trans_le ((zpow_le_zpow_iff_right₀ one_lt_two).mpr (by omega))
    calc (round x).value ≤ k * (2 : Rat) ^ lastPlace x.num.natAbs x.den :=
          round_le_of_lt_multiple hx (hk ▸ hbelow)
      _ = k' * (2 : Rat) ^ lastPlace y.num.natAbs y.den := hk.symm.trans hk'
      _ ≤ (round y).value := le_round_of_multiple_le hy (hk' ▸ hlow')

/-- Rounding keeps the order of numbers that are not negative. -/
theorem round_le_round {x y : Rat} (hx : 0 ≤ x) (h : x ≤ y) :
    (round x).value ≤ (round y).value := by
  rcases hx.eq_or_lt with rfl | hx
  · rcases h.eq_or_lt with rfl | hy
    · exact le_rfl
    · exact round_nonneg hy
  · exact round_le_round_of_pos hx h

/-- What is not below the least double above zero is not rounded to zero. -/
theorem round_pos {x : Rat} (h : (2 : Rat) ^ (-1074 : Int) ≤ x) : 0 < (round x).value := by
  have hleast : IsDouble ⟨(2 : Rat) ^ (-1074 : Int)⟩ := by
    refine isDouble_of_digits (m := 1) (e := -1074) (by norm_num) le_rfl ?_
    rw [abs_of_pos (by positivity), Nat.cast_one, one_mul]
  calc (0 : Rat) < 2 ^ (-1074 : Int) := by positivity
    _ = (round (2 ^ (-1074 : Int))).value := (congrArg value hleast).symm
    _ ≤ (round x).value := round_le_round (by positivity) h

/-- More of something that is not negative is not less. -/
theorem natCast_mul_le_natCast_mul {a : Binary64} (ha : 0 ≤ a) {m n : Nat} (h : m ≤ n) :
    (m : Binary64) * a ≤ (n : Binary64) * a := by
  have hcount : (m : Binary64).value ≤ (n : Binary64).value :=
    round_le_round (Nat.cast_nonneg m) (Nat.cast_le.mpr h)
  have hnonneg : 0 ≤ (m : Binary64).value := round_le_round le_rfl (Nat.cast_nonneg m)
  exact round_le_round (mul_nonneg hnonneg ha) (mul_le_mul_of_nonneg_right hcount ha)

/-! ## The greatest of a list -/

/-- No number of a list is above the greatest. -/
theorem le_maximum {x : Binary64} {xs : List Binary64} (h : x ∈ xs) : x ≤ maximum xs := by
  have hbounds : ∀ (ys : List Binary64) (start : Binary64),
      start ≤ ys.foldl max start ∧ ∀ y ∈ ys, y ≤ ys.foldl max start := by
    intro ys
    induction ys with
    | nil => exact fun start => ⟨le_refl start.value, by simp⟩
    | cons y rest ih =>
      intro start
      obtain ⟨hstart, hrest⟩ := ih (max start y)
      rw [le_iff, max_value, max_le_iff] at hstart
      exact ⟨hstart.1, List.forall_mem_cons.mpr ⟨hstart.2, hrest⟩⟩
  exact (hbounds xs 0).2 x h

end MessageCard.Binary64
