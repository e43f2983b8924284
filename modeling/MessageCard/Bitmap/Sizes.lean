import MessageCard.Table
import MessageCard.Template

/-!
# Sizes of the bitmaps seen so far

The size of a bitmap is remembered under its URL, so that a slot can be laid out in the right
proportions before its bitmap is fetched again.
-/
namespace MessageCard

/-- The pixel sizes of bitmaps by URL. -/
structure ImageSizes where
  table : Table String PixelSize

namespace ImageSizes

def empty : ImageSizes := ⟨.empty⟩

def find? (s : ImageSizes) (url : String) : Option PixelSize := s.table.find? url

def size (s : ImageSizes) : Nat := s.table.size

/-- The sizes with one more; an empty size is not worth remembering. -/
def insert (s : ImageSizes) (url : String) (size : PixelSize) : ImageSizes :=
  if size.width = 0 ∨ size.height = 0 then s else ⟨s.table.insert url size⟩

/-- The size to expect of a bitmap: the one seen under its URL, else the one its document states. -/
def known (s : ImageSizes) (url : String) (stated : Option PixelSize) : Option PixelSize :=
  (s.find? url).or stated

end ImageSizes
end MessageCard
