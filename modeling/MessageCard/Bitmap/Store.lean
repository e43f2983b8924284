import MessageCard.Bitmap
import MessageCard.Table

/-!
# Stored bitmaps

Decoded bitmaps are stored under file names, in spaces that are kept apart.
-/
namespace MessageCard

/-- Bitmaps by space and file name. -/
structure BitmapStore where
  table : Table (Option String × String) Bitmap

namespace BitmapStore

def empty : BitmapStore := ⟨.empty⟩

instance : Inhabited BitmapStore := ⟨empty⟩

def size (s : BitmapStore) : Nat := s.table.size

def find? (s : BitmapStore) (space : Option String) (name : String) : Option Bitmap :=
  s.table.find? (space, name)

def insert (s : BitmapStore) (space : Option String) (name : String) (b : Bitmap) : BitmapStore :=
  ⟨s.table.insert (space, name) b⟩

@[simp] theorem find?_empty (space : Option String) (name : String) :
    empty.find? space name = none := rfl

@[simp] theorem find?_insert (s : BitmapStore) (space other : Option String) (name wanted : String)
    (b : Bitmap) :
    (s.insert space name b).find? other wanted =
      if (space, name) = (other, wanted) then some b else s.find? other wanted :=
  Table.find?_insert ..

end BitmapStore
end MessageCard
