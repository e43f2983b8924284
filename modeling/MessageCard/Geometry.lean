import MessageCard.Template

/-!
# Points and rectangles
-/
namespace MessageCard

structure Point where
  x : Binary64
  y : Binary64
  deriving DecidableEq

/-- A rectangle, by its top left corner and its extent. -/
structure Rect where
  x : Binary64
  y : Binary64
  width : Binary64
  height : Binary64
  deriving DecidableEq

namespace Rect

def zero : Rect := ⟨0, 0, 0, 0⟩

def right (r : Rect) : Binary64 := r.x + r.width

def bottom (r : Rect) : Binary64 := r.y + r.height

def center (r : Rect) : Point := ⟨r.x + r.width / 2, r.y + r.height / 2⟩

/-- The rectangle shrunk on every side, to nothing at the least. -/
def inset (r : Rect) (i : Insets) : Rect :=
  ⟨r.x + i.left, r.y + i.top, max (r.width - i.horizontal) 0, max (r.height - i.vertical) 0⟩

end Rect
end MessageCard
