import MessageCard.Bitmap.Gif
import MessageCard.Bitmap.Png

/-!
# Encoded images

The images of a program that runs by itself, with a codec of its own. The codec reads PNG and GIF
files by their chunks and blocks and knows no other format; it passes over the compressed pixels, so
a fault in them is not seen. An image that was made here from a frame is known by the size of that
frame, and its bytes are never looked at.
-/
namespace MessageCard

/-- An image as it is stored or sent. -/
inductive EncodedImage where
  /-- A PNG file made from a frame of this size. -/
  | png (size : PixelSize)
  | bytes (data : List UInt8)
  deriving DecidableEq

namespace EncodedImage

instance : ImageCodec EncodedImage where
  format?
    | .png _ => some .png
    | .bytes data =>
      if Gif.isGif data then some .gif else if Png.isPng data then some .png else none
  frames?
    | .png _ => none
    | .bytes data => Gif.read? data
  picture?
    | .png, .png size => some size
    | .png, .bytes data => Png.read? data
    | _, _ => none

/-- The bitmap of an image, if it can be decoded. -/
def decode? (image : EncodedImage) : Option Bitmap := Bitmap.decode? image

end EncodedImage

/-- The first frame as a PNG file, which cannot be empty. -/
def Bitmap.toPng? (b : Bitmap) : Option EncodedImage :=
  if b.size.width = 0 ∨ b.size.height = 0 then none else some (.png b.size)

theorem Bitmap.decode?_toPng? {b : Bitmap} {image : EncodedImage} (h : b.toPng? = some image) :
    image.decode? = some (.still b.size) := by
  unfold toPng? at h
  split at h
  · cases h
  · cases h
    rfl

end MessageCard
