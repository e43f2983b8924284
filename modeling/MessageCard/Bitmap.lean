import MessageCard.Template

/-!
# Bitmaps

A bitmap is known here by the sizes of its frames and by how long each of them is shown; what its
pixels look like plays no part in a layout. It has at least one frame, and an animated one has more.
-/
namespace MessageCard

/-- One frame of a bitmap. -/
structure BitmapFrame where
  size : PixelSize
  /-- How long the frame is shown, in milliseconds. -/
  delay : Nat
  deriving DecidableEq

/-- A decoded picture. -/
structure Bitmap where
  first : BitmapFrame
  rest : List BitmapFrame
  deriving DecidableEq

namespace Bitmap

def frames (b : Bitmap) : List BitmapFrame := b.first :: b.rest

/-- The bitmap of the given frames, of which there must be one. -/
def ofFrames? : List BitmapFrame → Option Bitmap
  | [] => none
  | first :: rest => some ⟨first, rest⟩

/-- A picture that does not move. -/
def still (size : PixelSize) : Bitmap := ⟨⟨size, 0⟩, []⟩

def isAnimated (b : Bitmap) : Bool := !b.rest.isEmpty

/-- The size of the first frame. -/
def size (b : Bitmap) : PixelSize := b.first.size

/-- The longest edge, in pixels, that resizing may produce. -/
def edgeLimit : Nat := 4096

/-- The natural number nearest to `n / d`, and the greater one of two equally near. -/
def nearest (n d : Nat) : Nat := (2 * n + d) / (2 * d)

/-- The height that keeps the proportions of a size at another width. -/
def heightAt (size : PixelSize) (width : Nat) : Nat :=
  max 1 (nearest (size.height * width) size.width)

/-- Every frame scaled to a new width in the proportions of the first one. An empty bitmap, an empty
target and a target with an edge above the limit leave the bitmap as it is. -/
def resize (b : Bitmap) (width : Nat) : Bitmap :=
  if b.size.width = 0 ∨ b.size.height = 0 ∨ width = 0 ∨ width = b.size.width then b
  else
    let size : PixelSize := ⟨width, heightAt b.size width⟩
    if edgeLimit < size.width ∨ edgeLimit < size.height then b
    else ⟨{ b.first with size }, b.rest.map fun f => { f with size }⟩

end Bitmap

/-- A bitmap scaled for its slot. A slot with a fixed width and a flexible height shows the bitmap
at the width of the slot in pixels; any other slot takes it as it is. -/
def View.fit (view : View) (scale : Binary64) (b : Bitmap) : Bitmap :=
  match view.width with
  | .fixed width =>
    if view.height.isFixed then b
    else
      let content := max (width - view.style.padding.horizontal) 0
      let pixels := (content * scale).nearestInt
      if pixels < 1 ∨ (Bitmap.edgeLimit : Int) < pixels then b else b.resize pixels.toNat
  | _ => b

end MessageCard
