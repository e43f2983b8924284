import MessageCard.Bitmap

/-!
# Decoding images

How bytes spell a picture is the matter of a codec. What is made of a picture is told here: a GIF
file keeps every frame, and any other picture stands still.
-/
namespace MessageCard

/-- The formats that the first bytes of a file tell. -/
inductive ImageFormat where
  | png
  | jpeg
  | gif
  | other
  deriving DecidableEq

/-- A frame of an animation as a codec hands it over. -/
structure RawFrame where
  size : PixelSize
  /-- The milliseconds that the frame is shown are this number over the next one. -/
  numerator : Nat
  denominator : Nat

/-- The frame with its whole milliseconds, which are none over a zero. -/
def RawFrame.toFrame (f : RawFrame) : BitmapFrame := ⟨f.size, f.numerator / f.denominator⟩

/-- What can be read off bytes `β`. -/
class ImageCodec (β : Type) where
  format? : β → Option ImageFormat
  /-- The frames of a GIF file, if all of them can be read. -/
  frames? : β → Option (List RawFrame)
  /-- The size of a picture in a format, if the whole of it can be read. -/
  picture? : ImageFormat → β → Option PixelSize

/-- The bitmap of an image, if it can be decoded. -/
def Bitmap.decode? {β : Type} [ImageCodec β] (image : β) : Option Bitmap :=
  match ImageCodec.format? image with
  | none => none
  | some .gif => (ImageCodec.frames? image).bind fun frames => ofFrames? (frames.map (·.toFrame))
  | some format => (ImageCodec.picture? format image).map .still

end MessageCard
