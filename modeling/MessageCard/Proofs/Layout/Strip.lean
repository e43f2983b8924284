import Mathlib.Algebra.Order.BigOperators.Group.List
import Mathlib.Algebra.Order.Field.Rat
import Mathlib.Order.Bounds.Basic
import Mathlib.Tactic.Linarith
import Mathlib.Tactic.Ring
import MessageCard.Carousel
import MessageCard.Proofs.Binary64.Nearest

/-!
# Strips of pages

The pages of a carousel stand side by side, and their strip is measured twice: a running sum places
each page behind the one before it, and one sum of all widths and gaps is the width of the whole. In
exact arithmetic the two agree, so the strip ends where its last page does.

Doubles follow the exact numbers as long as nothing has to be rounded: when all widths and the
spacing are multiples of one binary place and add up to no more than 53 binary digits of it.
-/
namespace MessageCard
namespace Strip

variable {α : Type}

/-! ## Places one after another -/

section Places

variable [Add α] {spacing start : α} {widths : List α}

@[simp] theorem length_offsetsFrom (spacing start : α) (widths : List α) :
    (offsetsFrom spacing start widths).length = widths.length := by
  induction widths generalizing start with
  | nil => rfl
  | cons w rest ih => rw [offsetsFrom, List.length_cons, ih, List.length_cons]

theorem head?_offsetsFrom (h : widths ≠ []) :
    (offsetsFrom spacing start widths).head? = some start := by
  cases widths with
  | nil => exact absurd rfl h
  | cons w rest => rfl

/-- In any arithmetic, the page after another one is placed behind it by its width and a gap. -/
theorem getElem?_offsetsFrom_succ {i : Nat} {x w : α}
    (hx : (offsetsFrom spacing start widths)[i]? = some x) (hw : widths[i]? = some w)
    (hi : i + 1 < widths.length) :
    (offsetsFrom spacing start widths)[i + 1]? = some (x + (w + spacing)) := by
  induction widths generalizing start i with
  | nil => simp at hw
  | cons first rest ih =>
    cases i with
    | zero =>
      obtain rfl : start = x := by simpa [offsetsFrom] using hx
      obtain rfl : first = w := by simpa using hw
      have hrest : rest ≠ [] := by
        rintro rfl
        simp at hi
      rw [offsetsFrom, List.getElem?_cons_succ, ← List.head?_eq_getElem?, head?_offsetsFrom hrest]
    | succ i => exact ih (by simpa [offsetsFrom] using hx) (by simpa using hw) (by simpa using hi)

end Places

/-! ## Exact arithmetic -/

section Exact

variable [CommRing α] {spacing start x w : α} {widths : List α}

/-- A page is placed behind all widths before it and a gap for each of them. -/
theorem getElem?_offsetsFrom {k : Nat} (hk : k < widths.length) :
    (offsetsFrom spacing start widths)[k]? =
      some (start + (widths.take k).sum + k * spacing) := by
  induction widths generalizing start k with
  | nil => simp at hk
  | cons first rest ih =>
    cases k with
    | zero => simp [offsetsFrom]
    | succ k =>
      rw [offsetsFrom, List.getElem?_cons_succ, ih (by simpa using hk), List.take_succ_cons,
        List.sum_cons]
      push_cast
      ring_nf

theorem eq_of_offsets {k : Nat} (hx : (offsets spacing widths)[k]? = some x) :
    x = (widths.take k).sum + k * spacing := by
  have hk : k < widths.length := by
    simpa [offsets] using (List.getElem?_eq_some_iff.mp hx).1
  rw [offsets, getElem?_offsetsFrom hk, zero_add] at hx
  exact (Option.some.inj hx).symm

/-- A page ends behind all widths up to its own and a gap for each page before it. -/
theorem end_of_offsets {k : Nat} (hx : (offsets spacing widths)[k]? = some x)
    (hw : widths[k]? = some w) : x + w = (widths.take (k + 1)).sum + k * spacing := by
  rw [eq_of_offsets hx, List.take_add_one, hw, List.sum_append]
  simp only [Option.toList_some, List.sum_singleton]
  ring

theorem width_eq (spacing : α) (widths : List α) :
    width spacing widths = widths.sum + (widths.length - 1 : Nat) * spacing := by
  rw [width, ← List.sum_eq_foldl, mul_comm]

/-- The strip ends where its last page does. -/
theorem width_eq_of_getLast? (hx : (offsets spacing widths).getLast? = some x)
    (hw : widths.getLast? = some w) : width spacing widths = x + w := by
  rw [List.getLast?_eq_getElem?, offsets, length_offsetsFrom, ← offsets] at hx
  rw [List.getLast?_eq_getElem?] at hw
  have hpos : widths.length - 1 < widths.length := (List.getElem?_eq_some_iff.mp hw).1
  rw [end_of_offsets hx hw, width_eq, Nat.sub_add_cancel (by omega), List.take_length]

/-! ## Pages without overlap -/

variable [LinearOrder α] [IsStrictOrderedRing α]

/-- Where no width is negative, more pages have no lesser sum. -/
theorem sum_take_le_sum_take (hwidths : ∀ w ∈ widths, 0 ≤ w) {i j : Nat} (h : i ≤ j) :
    (widths.take i).sum ≤ (widths.take j).sum :=
  (List.take_sublist_take_left h).sum_le_sum fun w hw => hwidths w (List.mem_of_mem_take hw)

/-- No page starts before another one has ended that comes earlier. -/
theorem end_le_of_offsets {y : α} (hspacing : 0 ≤ spacing) (hwidths : ∀ w ∈ widths, 0 ≤ w)
    {i j : Nat} (hij : i < j) (hx : (offsets spacing widths)[i]? = some x)
    (hw : widths[i]? = some w) (hy : (offsets spacing widths)[j]? = some y) : x + w ≤ y := by
  rw [end_of_offsets hx hw, eq_of_offsets hy]
  have hgaps : (i : α) * spacing ≤ j * spacing :=
    mul_le_mul_of_nonneg_right (Nat.cast_le.mpr hij.le) hspacing
  exact add_le_add (sum_take_le_sum_take hwidths hij) hgaps

/-- No page goes on behind the end of the strip. -/
theorem end_le_width (hspacing : 0 ≤ spacing) (hwidths : ∀ w ∈ widths, 0 ≤ w) {i : Nat}
    (hx : (offsets spacing widths)[i]? = some x) (hw : widths[i]? = some w) :
    x + w ≤ width spacing widths := by
  have hi := (List.getElem?_eq_some_iff.mp hw).1
  rw [end_of_offsets hx hw, width_eq]
  have hgaps : (i : α) * spacing ≤ (widths.length - 1 : Nat) * spacing :=
    mul_le_mul_of_nonneg_right (Nat.cast_le.mpr (by omega)) hspacing
  refine add_le_add ?_ hgaps
  calc (widths.take (i + 1)).sum ≤ (widths.take widths.length).sum :=
        sum_take_le_sum_take hwidths hi
    _ = widths.sum := by rw [List.take_length]

end Exact

/-! ## The highest page -/

theorem isGreatest_foldl_max [LinearOrder α] (start : α) (hs : List α) :
    IsGreatest {h | h ∈ start :: hs} (hs.foldl max start) := by
  induction hs generalizing start with
  | nil => exact ⟨List.mem_cons_self, fun h hh => (List.mem_singleton.mp hh).le⟩
  | cons first rest ih =>
    obtain ⟨hmem, hbound⟩ := ih (max start first)
    have hleast : max start first ≤ rest.foldl max (max start first) :=
      hbound List.mem_cons_self
    rw [List.foldl_cons]
    constructor
    · rcases List.mem_cons.mp hmem with heq | hmem
      · rw [heq]
        rcases max_choice start first with h | h
        · rw [h]
          exact List.mem_cons_self
        · rw [h]
          exact List.mem_cons_of_mem _ List.mem_cons_self
      · exact List.mem_cons_of_mem _ (List.mem_cons_of_mem _ hmem)
    · intro h hh
      rcases List.mem_cons.mp hh with rfl | hh
      · exact (le_max_left _ _).trans hleast
      rcases List.mem_cons.mp hh with rfl | hh
      · exact (le_max_right _ _).trans hleast
      · exact hbound (List.mem_cons_of_mem _ hh)

/-- The height of a strip is the greatest of its pages' heights and zero. -/
theorem isGreatest_height [Zero α] [LinearOrder α] (hs : List α) :
    IsGreatest {h | h ∈ 0 :: hs} (height hs) :=
  isGreatest_foldl_max 0 hs

/-- The height of a strip in doubles is exact. -/
theorem value_height (hs : List Binary64) :
    (height hs).value = height (hs.map (·.value)) := by
  have hfold : ∀ start : Binary64,
      (hs.foldl max start).value = (hs.map (·.value)).foldl max start.value := by
    induction hs with
    | nil => exact fun _ => rfl
    | cons h rest ih =>
      intro start
      rw [List.foldl_cons, ih, List.map_cons, List.foldl_cons, Binary64.max_value]
  exact hfold 0

/-! ## Doubles that add up exactly -/

/-- The number is a multiple of a binary place. -/
def IsAtPlace (e : Int) (x : Rat) : Prop := ∃ m : Int, x = m * (2 : Rat) ^ e

section Doubles

variable {e : Int} {x y : Rat}

theorem IsAtPlace.add (hx : IsAtPlace e x) (hy : IsAtPlace e y) : IsAtPlace e (x + y) := by
  obtain ⟨m, rfl⟩ := hx
  obtain ⟨n, rfl⟩ := hy
  refine ⟨m + n, ?_⟩
  push_cast
  ring

theorem IsAtPlace.mul_natCast (hx : IsAtPlace e x) (n : Nat) : IsAtPlace e (x * n) := by
  obtain ⟨m, rfl⟩ := hx
  refine ⟨m * n, ?_⟩
  push_cast
  ring

/-- A number with at most 53 binary digits at a place is a double. -/
theorem IsAtPlace.isDouble (hx : IsAtPlace e x) (he : -1074 ≤ e)
    (hdigits : |x| ≤ 2 ^ 53 * (2 : Rat) ^ e) : Binary64.IsDouble ⟨x⟩ := by
  obtain ⟨m, rfl⟩ := hx
  have hplace : (0 : Rat) < 2 ^ e := by positivity
  have habs : |(m : Rat) * 2 ^ e| = (m.natAbs : Rat) * 2 ^ e := by
    rw [abs_mul, abs_of_pos hplace, Nat.cast_natAbs, Int.cast_abs]
  rw [habs] at hdigits
  have hm : (m.natAbs : Rat) ≤ 2 ^ 53 := le_of_mul_le_mul_right hdigits hplace
  exact Binary64.isDouble_of_digits (by exact_mod_cast hm) he habs

/-- Two doubles at a place have an exact sum if the sum of their distances from zero has at most 53
binary digits there. -/
theorem IsAtPlace.value_add {a b : Binary64} (ha : IsAtPlace e a.value) (hb : IsAtPlace e b.value)
    (he : -1074 ≤ e) (hdigits : |a.value| + |b.value| ≤ 2 ^ 53 * (2 : Rat) ^ e) :
    (a + b).value = a.value + b.value :=
  congrArg Binary64.value ((ha.add hb).isDouble he ((abs_add_le _ _).trans hdigits))

/-- How far a strip can reach at most. -/
def reach (spacing : Binary64) (widths : List Binary64) : Rat :=
  (widths.map fun w => |w.value| + |spacing.value|).sum

theorem reach_nonneg (spacing : Binary64) (widths : List Binary64) : 0 ≤ reach spacing widths := by
  refine List.sum_nonneg fun x hx => ?_
  obtain ⟨w, -, rfl⟩ := List.mem_map.mp hx
  positivity

theorem reach_cons (spacing w : Binary64) (rest : List Binary64) :
    reach spacing (w :: rest) = |w.value| + |spacing.value| + reach spacing rest := by
  rw [reach, List.map_cons, List.sum_cons, ← reach]

/-- The start of a strip, its widths and its spacing are multiples of one binary place that doubles
have, and add up to at most 53 binary digits there. -/
structure FitsDoubles (e : Int) (spacing start : Binary64) (widths : List Binary64) : Prop where
  place : -1074 ≤ e
  spacing_at : IsAtPlace e spacing.value
  start_at : IsAtPlace e start.value
  widths_at : ∀ w ∈ widths, IsAtPlace e w.value
  digits : |start.value| + reach spacing widths ≤ 2 ^ 53 * (2 : Rat) ^ e

variable {spacing start w : Binary64} {widths rest : List Binary64}

/-- What is left of a strip fits behind every place that its first page can reach. -/
theorem FitsDoubles.next (h : FitsDoubles e spacing start (w :: rest)) {next : Binary64}
    (hnext : IsAtPlace e next.value)
    (hreach : |next.value| ≤ |start.value| + |w.value| + |spacing.value|) :
    FitsDoubles e spacing next rest := by
  have hdigits := h.digits
  rw [reach_cons] at hdigits
  exact ⟨h.place, h.spacing_at, hnext, fun x hx => h.widths_at x (List.mem_cons_of_mem _ hx),
    by linarith⟩

/-- Where everything fits, the offsets in doubles are the exact ones. -/
theorem FitsDoubles.value_offsetsFrom (h : FitsDoubles e spacing start widths) :
    (offsetsFrom spacing start widths).map (·.value) =
      offsetsFrom spacing.value start.value (widths.map (·.value)) := by
  induction widths generalizing start with
  | nil => rfl
  | cons w rest ih =>
    have hw := h.widths_at w List.mem_cons_self
    have hdigits := h.digits
    rw [reach_cons] at hdigits
    have hrest := reach_nonneg spacing rest
    have hstart := abs_nonneg start.value
    have hsum := abs_add_le w.value spacing.value
    have hstep : (w + spacing).value = w.value + spacing.value :=
      hw.value_add h.spacing_at h.place (by linarith)
    have hat : IsAtPlace e (w + spacing).value := hstep ▸ hw.add h.spacing_at
    have hnext : (start + (w + spacing)).value = start.value + (w.value + spacing.value) := by
      rw [h.start_at.value_add hat h.place (by rw [hstep]; linarith), hstep]
    -- The start moves on by what this page adds to the reach, so the rest fits behind it.
    have hfits : FitsDoubles e spacing (start + (w + spacing)) rest := by
      refine h.next (hnext ▸ h.start_at.add (hw.add h.spacing_at)) ?_
      rw [hnext]
      linarith [abs_add_le start.value (w.value + spacing.value)]
    rw [offsetsFrom, List.map_cons, ih hfits, hnext, List.map_cons, offsetsFrom]

/-- Where everything fits, so is the sum of the widths. -/
theorem FitsDoubles.value_foldl_add (h : FitsDoubles e spacing start widths) :
    (widths.foldl (· + ·) start).value =
      (widths.map (·.value)).foldl (· + ·) start.value := by
  induction widths generalizing start with
  | nil => rfl
  | cons w rest ih =>
    have hw := h.widths_at w List.mem_cons_self
    have hdigits := h.digits
    rw [reach_cons] at hdigits
    have hrest := reach_nonneg spacing rest
    have hspacing := abs_nonneg spacing.value
    have hnext : (start + w).value = start.value + w.value :=
      h.start_at.value_add hw h.place (by linarith)
    have hfits : FitsDoubles e spacing (start + w) rest := by
      refine h.next (hnext ▸ h.start_at.add hw) ?_
      rw [hnext]
      linarith [abs_add_le start.value w.value]
    rw [List.foldl_cons, ih hfits, hnext, List.map_cons, List.foldl_cons]

/-- All widths and all gaps are no longer than the strip can reach. -/
theorem sum_add_gaps_le_reach (spacing : Binary64) (widths : List Binary64) :
    |(widths.map (·.value)).sum| + widths.length * |spacing.value| ≤ reach spacing widths := by
  induction widths with
  | nil => simp [reach]
  | cons w rest ih =>
    rw [reach_cons, List.map_cons, List.sum_cons, List.length_cons]
    push_cast
    linarith [abs_add_le w.value (rest.map (·.value)).sum]

theorem FitsDoubles.sum_add_gaps_le (h : FitsDoubles e spacing start widths) :
    |(widths.map (·.value)).sum| + widths.length * |spacing.value| ≤ 2 ^ 53 * (2 : Rat) ^ e := by
  linarith [h.digits, sum_add_gaps_le_reach spacing widths, abs_nonneg start.value]

/-- A strip that fits has no more pages than doubles can count, unless its pages touch. -/
theorem FitsDoubles.length_le (h : FitsDoubles e spacing start widths) (hgap : spacing.value ≠ 0) :
    widths.length ≤ 2 ^ 53 := by
  obtain ⟨m, hm⟩ := h.spacing_at
  have hplace : (0 : Rat) < 2 ^ e := by positivity
  have hunits : 1 ≤ |(m : Rat)| := by
    have hm0 : m ≠ 0 := by
      rintro rfl
      simp [hm] at hgap
    exact_mod_cast Int.one_le_abs hm0
  have hunit : (2 : Rat) ^ e ≤ |spacing.value| := by
    rw [hm, abs_mul, abs_of_pos hplace]
    exact le_mul_of_one_le_left hplace.le hunits
  have hpages : (widths.length : Rat) * 2 ^ e ≤ 2 ^ 53 * 2 ^ e :=
    calc (widths.length : Rat) * 2 ^ e ≤ widths.length * |spacing.value| := by gcongr
      _ ≤ 2 ^ 53 * 2 ^ e := by
        linarith [h.sum_add_gaps_le, abs_nonneg (widths.map (·.value)).sum]
  exact_mod_cast le_of_mul_le_mul_right hpages hplace

/-- The gaps between pages are fewer than the pages. -/
theorem abs_gaps_le (x : Rat) (n : Nat) : |x * (n - 1 : Nat)| ≤ n * |x| := by
  have hfewer : ((n - 1 : Nat) : Rat) ≤ n := Nat.cast_le.mpr (Nat.sub_le n 1)
  calc |x * (n - 1 : Nat)| = (n - 1 : Nat) * |x| := by rw [abs_mul, Nat.abs_cast, mul_comm]
    _ ≤ n * |x| := by gcongr

/-- The gaps of a strip that fits have an exact length. -/
theorem FitsDoubles.value_gaps (h : FitsDoubles e spacing start widths) :
    (spacing * ((widths.length - 1 : Nat) : Binary64)).value =
      spacing.value * (widths.length - 1 : Nat) := by
  -- Pages that touch may be more than doubles can count, but then nothing is to be counted.
  by_cases hgap : spacing.value = 0
  · rw [Binary64.mul_def, hgap, zero_mul, zero_mul]
    rfl
  have hcount : ((widths.length - 1 : Nat) : Binary64).value = (widths.length - 1 : Nat) :=
    Binary64.value_natCast ((Nat.sub_le _ _).trans (h.length_le hgap))
  rw [Binary64.mul_def, hcount]
  refine congrArg Binary64.value ((h.spacing_at.mul_natCast _).isDouble h.place ?_)
  linarith [abs_gaps_le spacing.value widths.length, h.sum_add_gaps_le,
    abs_nonneg (widths.map (·.value)).sum]

theorem FitsDoubles.sum_at (h : FitsDoubles e spacing start widths) :
    IsAtPlace e (widths.map (·.value)).sum := by
  have hwidths := h.widths_at
  clear h
  induction widths with
  | nil => exact ⟨0, by simp⟩
  | cons w rest ih =>
    rw [List.map_cons, List.sum_cons]
    exact (hwidths w List.mem_cons_self).add
      (ih fun x hx => hwidths x (List.mem_cons_of_mem _ hx))

/-- Where everything fits, the width in doubles is the exact one. -/
theorem FitsDoubles.value_width (h : FitsDoubles e spacing 0 widths) :
    (width spacing widths).value = width spacing.value (widths.map (·.value)) := by
  have hsum : (widths.foldl (· + ·) (0 : Binary64)).value = (widths.map (·.value)).sum :=
    h.value_foldl_add.trans List.sum_eq_foldl.symm
  have hgaps := h.value_gaps
  have hdigits : |(widths.foldl (· + ·) (0 : Binary64)).value| +
      |(spacing * ((widths.length - 1 : Nat) : Binary64)).value| ≤ 2 ^ 53 * (2 : Rat) ^ e := by
    rw [hsum, hgaps]
    linarith [abs_gaps_le spacing.value widths.length, h.sum_add_gaps_le]
  have hadd : (width spacing widths).value = (widths.foldl (· + ·) (0 : Binary64)).value +
      (spacing * ((widths.length - 1 : Nat) : Binary64)).value :=
    IsAtPlace.value_add (hsum ▸ h.sum_at) (hgaps ▸ h.spacing_at.mul_natCast _) h.place hdigits
  rw [hadd, hsum, hgaps, width_eq, List.length_map, mul_comm spacing.value]

end Doubles

end Strip
end MessageCard
