import MessageCard.Layout.Axis
import MessageCard.Table

/-!
# Carousels

The pages of a carousel are cards of their own. They are kept, with the place to which the carousel
was scrolled, from one rendering of a message to the next, as long as the carousel stays at its path
and has as many pages.

Beside the keeping of pages stands the geometry of the strip they form: side by side, with a gap
between two neighbours.
-/
namespace MessageCard

/-- What tells one message's card from another's. -/
structure CardIdentity where
  message : String
  revision : Nat
  deriving DecidableEq

/-- Which carousel is meant: the card it is on, and its path there. -/
structure CarouselKey where
  identity : CardIdentity
  path : String
  deriving DecidableEq

/-- The identity of the card that is a page of a carousel. -/
def CarouselKey.page (key : CarouselKey) (index : Nat) : CardIdentity :=
  ⟨key.identity.message ++ "/" ++ key.path ++ "[" ++ toString index ++ "]", key.identity.revision⟩

/-- The pages of a carousel and how far it is scrolled. -/
structure CarouselState (π : Type) where
  pages : List π
  scroll : Binary64

/-- The carousels of a card, and those of the rendering before while a new one is under way. -/
structure CarouselCache (π : Type) where
  previous : Table CarouselKey (CarouselState π)
  current : Table CarouselKey (CarouselState π)
  /-- How many carousels had to be built anew. -/
  builds : Nat

namespace CarouselCache

variable {π : Type}

def empty : CarouselCache π := ⟨.empty, .empty, 0⟩

/-- A rendering begins: what is there may be claimed again. -/
def beginPass (c : CarouselCache π) : CarouselCache π :=
  { c with previous := c.current, current := .empty }

/-- A rendering ends: what was not claimed is dropped. -/
def endPass (c : CarouselCache π) : CarouselCache π := { c with previous := .empty }

def get? (c : CarouselCache π) (key : CarouselKey) : Option (CarouselState π) :=
  c.current.find? key

/-- The carousel of the rendering before, if it has as many pages. -/
def reusable? (c : CarouselCache π) (key : CarouselKey) (pages : Nat) :
    Option (CarouselState π) :=
  (c.previous.find? key).filter (·.pages.length = pages)

/-- Claims a carousel: the one of the rendering before if it has as many pages, else a new one. A
carousel that is claimed twice stays what it was. -/
def checkout (c : CarouselCache π) (key : CarouselKey) (pages : Nat) (build : Nat → π) :
    CarouselState π × CarouselCache π :=
  let (claimed, builds) := match c.reusable? key pages with
    | some state => (state, c.builds)
    | none => (⟨(List.range pages).map build, 0⟩, c.builds + 1)
  let state := (c.get? key).getD claimed
  (state, ⟨c.previous.erase key, c.current.insert key state, builds⟩)

/-- The cache with another state of a carousel. -/
def put (c : CarouselCache π) (key : CarouselKey) (state : CarouselState π) : CarouselCache π :=
  { c with current := c.current.insert key state }

def size (c : CarouselCache π) : Nat := c.current.size

end CarouselCache

/-! ## The strip of pages -/

namespace Strip

variable {α : Type}

/-- Where each page starts, the first at a given place. -/
def offsetsFrom [Add α] (spacing : α) : α → List α → List α
  | _, [] => []
  | start, width :: rest => start :: offsetsFrom spacing (start + (width + spacing)) rest

/-- Where each page starts. -/
def offsets [Zero α] [Add α] (spacing : α) (widths : List α) : List α :=
  offsetsFrom spacing 0 widths

/-- The width of all pages and of the gaps between them. -/
def width [Zero α] [Add α] [Mul α] [NatCast α] (spacing : α) (widths : List α) : α :=
  widths.foldl (· + ·) 0 + spacing * ((widths.length - 1 : Nat) : α)

/-- The height of the highest page. -/
def height [Zero α] [Max α] (heights : List α) : α := heights.foldl max 0

end Strip
end MessageCard
