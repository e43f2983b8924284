import MessageCard.Bitmap

/-!
# Bitmaps in their slots

A view asks for a bitmap at a width in pixels or takes it as it is, and that width is all that
counts: two views make the same of a bitmap if and only if they make it equally wide. A bitmap gets
the width that is asked for, unless its size or the limit of edges keeps it as it is.
-/
namespace MessageCard

namespace Bitmap

/-- A bitmap can be drawn at a width. -/
structure Scales (b : Bitmap) (width : Nat) : Prop where
  nonempty : b.size.width ≠ 0 ∧ b.size.height ≠ 0
  pos : width ≠ 0
  width_le : width ≤ edgeLimit
  height_le : heightAt b.size width ≤ edgeLimit

theorem resize_self (b : Bitmap) : b.resize b.size.width = b := by
  rw [resize, if_pos (.inr (.inr (.inr rfl)))]

/-- A bitmap is as wide as asked for, or it cannot be and stays as it is. -/
theorem width_resize (b : Bitmap) (width : Nat) :
    (b.resize width).size.width = width ∨ ¬b.Scales width ∧ b.resize width = b := by
  unfold resize
  split
  case isTrue h =>
    rcases h with h | h | h | h
    · exact .inr ⟨fun hs => hs.nonempty.1 h, rfl⟩
    · exact .inr ⟨fun hs => hs.nonempty.2 h, rfl⟩
    · exact .inr ⟨fun hs => hs.pos h, rfl⟩
    · exact .inl h.symm
  case isFalse =>
    dsimp only
    split
    case isTrue h =>
      refine .inr ⟨fun hs => ?_, rfl⟩
      exact h.elim (Nat.not_lt.mpr hs.width_le) (Nat.not_lt.mpr hs.height_le)
    case isFalse => exact .inl rfl

end Bitmap

namespace View

/-- The width in pixels at which a view draws bitmaps, if it does not take them as they are. -/
def drawnWidth? (view : View) (scale : Binary64) : Option Nat :=
  match view.width with
  | .fixed width =>
    if view.height.isFixed then none
    else
      let pixels := (max (width - view.style.padding.horizontal) 0 * scale).nearestInt
      if pixels < 1 ∨ (Bitmap.edgeLimit : Int) < pixels then none else some pixels.toNat
  | _ => none

variable {view other : View} {scale : Binary64} {b : Bitmap}

theorem fit_eq (view : View) (scale : Binary64) (b : Bitmap) :
    view.fit scale b = (view.drawnWidth? scale).elim b b.resize := by
  unfold fit drawnWidth?
  cases view.width with
  | fixed width =>
    cases view.height.isFixed with
    | true => rfl
    | false =>
      simp only [Bool.false_eq_true, if_false]
      split <;> rfl
  | _ => rfl

/-- A bitmap in its slot is as wide as the view draws bitmaps, or it cannot be. -/
theorem width_fit {width : Nat} (h : view.drawnWidth? scale = some width) (b : Bitmap) :
    (view.fit scale b).size.width = width ∨ ¬b.Scales width ∧ view.fit scale b = b := by
  rw [fit_eq, h, Option.elim_some]
  exact b.width_resize width

/-- A fitted bitmap is the bitmap scaled to the width that it has then. -/
theorem fit_eq_resize (view : View) (scale : Binary64) (b : Bitmap) :
    view.fit scale b = b.resize (view.fit scale b).size.width := by
  cases h : view.drawnWidth? scale with
  | none =>
    have hkept : view.fit scale b = b := by rw [fit_eq, h, Option.elim_none]
    rw [hkept, Bitmap.resize_self]
  | some width =>
    rcases width_fit h b with hwidth | ⟨-, hkept⟩
    · rw [hwidth, fit_eq, h, Option.elim_some]
    · rw [hkept, Bitmap.resize_self]

/-- Two views make the same of a bitmap if and only if they make it equally wide. -/
theorem fit_eq_fit_iff : view.fit scale b = other.fit scale b ↔
    (view.fit scale b).size.width = (other.fit scale b).size.width := by
  refine ⟨fun h => by rw [h], fun h => ?_⟩
  rw [fit_eq_resize view, h, ← fit_eq_resize]

theorem fit_congr (h : view.drawnWidth? scale = other.drawnWidth? scale) (b : Bitmap) :
    view.fit scale b = other.fit scale b := by
  rw [fit_eq, fit_eq, h]

end View
end MessageCard
