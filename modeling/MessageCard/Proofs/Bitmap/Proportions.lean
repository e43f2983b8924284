import Mathlib.Algebra.Order.Round
import MessageCard.Bitmap.Scaling
import MessageCard.Proofs.Binary64.Nearest

/-!
# Proportions of scaled bitmaps

A scaled bitmap keeps its frames and how long each is shown. All of them have the new width and one
height, the integer nearest to the exact proportion; or the bitmap is left alone. The way through
doubles makes no difference: up to the limit of edges the products are exact, and no quotient is so
close below a half that it would be rounded up.
-/
namespace MessageCard.Bitmap

/-- Up to the limit of edges the height in doubles is the exact one. -/
theorem scaledHeight_value {size : PixelSize} {width : Nat} (hw : 0 < size.width)
    (hsize : size.width < 2 ^ 32) (hheight : size.height < 2 ^ 32) (hwidth : width ≤ edgeLimit) :
    (scaledHeight size width).value = heightAt size width := by
  rw [edgeLimit] at hwidth
  have hproduct : size.height * width ≤ 2 ^ 32 * 4096 := Nat.mul_le_mul hheight.le hwidth
  have hnearest : ((size.height : Binary64) * width / size.width).nearestInt =
      (nearest (size.height * width) size.width : Nat) := by
    rw [Binary64.natCast_mul_natCast (by omega) (by omega),
      Binary64.nearestInt_div hw (by omega), nearest]
  have hsmall : nearest (size.height * width) size.width ≤ 2 ^ 53 :=
    (Nat.div_le_self _ _).trans (by omega)
  have hone : (1 : Binary64).value = 1 := Binary64.value_natCast (n := 1) (by decide)
  rw [scaledHeight, hnearest, Binary64.max_value, hone, Binary64.value_intCast (by omega)
    (by exact_mod_cast hsmall), heightAt, Nat.cast_max, Nat.cast_one, Int.cast_natCast, max_comm]

theorem truncate_of_value_eq {a : Binary64} {n : Nat} (h : a.value = n) : a.truncate = n := by
  rw [Binary64.truncate, h]
  simp

theorem resizeInDoubles_eq {b : Bitmap} {width : Nat} (hw : b.size.width < 2 ^ 32)
    (hh : b.size.height < 2 ^ 32) : b.resizeInDoubles width = b.resize width := by
  unfold resizeInDoubles resize
  split
  · rfl
  · next h =>
    simp only [not_or] at h
    dsimp only
    rcases Nat.lt_or_ge edgeLimit width with hlarge | hwidth
    · rw [if_pos (.inl hlarge), if_pos (.inl hlarge)]
    · have hvalue := scaledHeight_value (Nat.pos_of_ne_zero h.1) hw hh hwidth
      have hlimit : (edgeLimit : Binary64) < scaledHeight b.size width ↔
          edgeLimit < heightAt b.size width := by
        rw [Binary64.lt_iff, hvalue, Binary64.value_natCast (by decide), Nat.cast_lt]
      simp only [hlimit, truncate_of_value_eq hvalue, Int.toNat_natCast]

/-! ## Frames -/

/-- The bitmap with every frame at one size. -/
def withSize (b : Bitmap) (size : PixelSize) : Bitmap :=
  ⟨{ b.first with size }, b.rest.map fun f => { f with size }⟩

theorem frames_withSize (b : Bitmap) (size : PixelSize) :
    (b.withSize size).frames = b.frames.map fun f => { f with size } := rfl

/-- The integer nearest to the height that keeps the proportions exactly, and one at least. -/
def exactHeight (size : PixelSize) (width : Nat) : Int :=
  max 1 (round ((size.height * width : Rat) / size.width))

theorem heightAt_eq {size : PixelSize} (hw : 0 < size.width) (width : Nat) :
    heightAt size width = exactHeight size width := by
  rw [exactHeight, round_eq, ← Nat.cast_mul, Binary64.floor_add_half _ hw, heightAt, nearest,
    Nat.cast_max, Nat.cast_one]

/-- A bitmap is left alone at a width: it is empty or would be, it has that width already, or an
edge would be past the limit. -/
def IsKept (b : Bitmap) (width : Nat) : Prop :=
  b.size.width = 0 ∨ b.size.height = 0 ∨ width = 0 ∨ width = b.size.width ∨
    edgeLimit < width ∨ edgeLimit < exactHeight b.size width

theorem resize_of_isKept {b : Bitmap} {width : Nat} (h : b.IsKept width) : b.resize width = b := by
  unfold resize
  split
  · rfl
  · next hplain =>
    simp only [not_or] at hplain
    have hheight := heightAt_eq (Nat.pos_of_ne_zero hplain.1) width
    simp only [IsKept, hplain, false_or, ← hheight, Nat.cast_lt] at h
    exact if_pos h

theorem resize_of_not_isKept {b : Bitmap} {width : Nat} (h : ¬b.IsKept width) :
    b.resize width = b.withSize ⟨width, heightAt b.size width⟩ := by
  simp only [IsKept, not_or] at h
  obtain ⟨hw, hh, hwidth, hother, hlimit⟩ := h
  rw [← heightAt_eq (Nat.pos_of_ne_zero hw), Nat.cast_lt] at hlimit
  have hplain : ¬(b.size.width = 0 ∨ b.size.height = 0 ∨ width = 0 ∨ width = b.size.width) := by
    simp [hw, hh, hwidth, hother]
  have hfits : ¬(edgeLimit < width ∨ edgeLimit < heightAt b.size width) := not_or.mpr hlimit
  rw [resize, if_neg hplain]
  exact if_neg hfits

theorem map_delay_withSize (b : Bitmap) (size : PixelSize) :
    (b.withSize size).frames.map (·.delay) = b.frames.map (·.delay) := by
  rw [frames_withSize, List.map_map]
  rfl

/-- A scaled bitmap keeps its frames and how long each is shown. It is left alone, or all its frames
have the new width and the height nearest to the exact proportion; so no edge is made longer than
the limit. -/
theorem resize_keeps_proportions {b : Bitmap} (hw : b.size.width < 2 ^ 32)
    (hh : b.size.height < 2 ^ 32) (width : Nat) :
    b.resizeInDoubles width = b.resize width ∧
    (b.resize width).frames.length = b.frames.length ∧
    (b.resize width).frames.map (·.delay) = b.frames.map (·.delay) ∧
    (b.IsKept width → b.resize width = b) ∧
    (¬b.IsKept width → ∀ f ∈ (b.resize width).frames,
      f.size.width = width ∧ f.size.height = exactHeight b.size width) ∧
    (b.resize width = b ∨ ∀ f ∈ (b.resize width).frames,
      1 ≤ f.size.width ∧ f.size.width ≤ edgeLimit ∧
      1 ≤ f.size.height ∧ f.size.height ≤ edgeLimit) := by
  have hdelays : (b.resize width).frames.map (·.delay) = b.frames.map (·.delay) := by
    by_cases hkept : b.IsKept width
    · rw [resize_of_isKept hkept]
    · rw [resize_of_not_isKept hkept, map_delay_withSize]
  have hsizes : ¬b.IsKept width → ∀ f ∈ (b.resize width).frames,
      f.size.width = width ∧ f.size.height = exactHeight b.size width := by
    intro hkept f hf
    rw [resize_of_not_isKept hkept, frames_withSize, List.mem_map] at hf
    obtain ⟨f, -, rfl⟩ := hf
    simp only [IsKept, not_or] at hkept
    exact ⟨rfl, heightAt_eq (Nat.pos_of_ne_zero hkept.1) width⟩
  refine ⟨resizeInDoubles_eq hw hh, by simpa using congrArg List.length hdelays, hdelays,
    resize_of_isKept, hsizes, or_iff_not_imp_left.mpr fun hchanged f hf => ?_⟩
  have hkept : ¬b.IsKept width := fun h => hchanged (resize_of_isKept h)
  obtain ⟨hwidth, hheight⟩ := hsizes hkept f hf
  have hone : 1 ≤ exactHeight b.size width := le_max_left _ _
  simp only [IsKept, not_or] at hkept
  omega

/-- A height of forty pixels and a half is forty-one pixels, in all frames. -/
theorem resize_keeps_proportions_at_half_pixel :
    let b : Bitmap := ⟨⟨⟨40, 81⟩, 50⟩, [⟨⟨30, 10⟩, 70⟩]⟩
    b.resizeInDoubles 20 = b.resize 20 ∧ (b.resize 20).frames.map (·.delay) = [50, 70] ∧
      ∀ f ∈ (b.resize 20).frames, f.size.width = 20 ∧ (f.size.height : Int) = 41 := by
  intro b
  have hheight : exactHeight b.size 20 = 41 := by
    rw [← heightAt_eq (by decide)]
    decide
  have hkept : ¬b.IsKept 20 := by
    rw [IsKept, hheight]
    decide
  obtain ⟨hdoubles, -, hdelays, -, hsizes, -⟩ :=
    resize_keeps_proportions (b := b) (by decide) (by decide) 20
  exact ⟨hdoubles, hdelays, fun f hf => hheight ▸ hsizes hkept f hf⟩

end MessageCard.Bitmap
