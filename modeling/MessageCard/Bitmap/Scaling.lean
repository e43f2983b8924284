import MessageCard.Bitmap

/-!
# Scaling in doubles

Bitmaps are scaled with a height that is computed in doubles: a product, a quotient, the integer
nearest to it, and one pixel at least. The limit of edges is checked before the height becomes an
integer of 32 bits.
-/
namespace MessageCard.Bitmap

/-- The height, as a double, that keeps the proportions of a size at another width. -/
def scaledHeight (size : PixelSize) (width : Nat) : Binary64 :=
  max (((size.height : Binary64) * width / size.width).nearestInt : Binary64) 1

/-- Every frame scaled to a new width in the proportions of the first one, in doubles. -/
def resizeInDoubles (b : Bitmap) (width : Nat) : Bitmap :=
  if b.size.width = 0 ∨ b.size.height = 0 ∨ width = 0 ∨ width = b.size.width then b
  else
    let height := scaledHeight b.size width
    if edgeLimit < width ∨ (edgeLimit : Binary64) < height then b
    else
      let size : PixelSize := ⟨width, height.truncate.toNat⟩
      ⟨{ b.first with size }, b.rest.map fun f => { f with size }⟩

end MessageCard.Bitmap
