import MessageCard.Layout.Settling

/-!
# Cards

A card shows one message at a time. It keeps the layout of the message's template alive, so that
bitmaps can be put into it when they arrive, and it keeps the pages of its carousels, which are
cards themselves, from one rendering to the next.
-/
namespace MessageCard

/-- Why a template cannot be laid out. -/
inductive LayoutError where
  | noBody
  | unsupportedVersion (version : Int)
  | system (e : SystemError)
  deriving DecidableEq

/-- The text of an error. -/
def LayoutError.message : LayoutError → String
  | .noBody => "template has no body"
  | .unsupportedVersion v => "unsupported template version " ++ toString v
  | .system e => "constraint solver error: " ++ e.message

/-- The layout of the message shown, and what is kept for the next one. -/
structure Card (σ : Type) where
  settings : LayoutSettings
  identity : CardIdentity
  carousels : CarouselCache (Card σ)
  live : Option (LiveLayout σ)

namespace Card

variable {σ : Type}

/-- A card that shows nothing yet. -/
def new (settings : LayoutSettings) : Card σ := ⟨settings, ⟨"", 0⟩, .empty, none⟩

/-- The layout of the message shown. -/
def tree? (c : Card σ) : Option LayoutTree := c.live.map (·.tree)

/-- The card with another width, which counts from the next rendering on. -/
def withMaxWidth (c : Card σ) (maxWidth : Binary64) : Card σ :=
  { c with settings := { c.settings with maxWidth } }

/-- The card with no message shown. -/
def cleared (c : Card σ) : Card σ := { c with live := none }

/-- The node of the message shown that has a number. -/
def node? (c : Card σ) (id : Nat) : Option OutlineNode :=
  c.live.bind fun l => l.root.nodes.find? (·.id = id)

/-- The node with a number, unless it is hidden. -/
def shownNode? (c : Card σ) (id : Nat) : Option OutlineNode :=
  (c.node? id).filter (!·.hidden)

/-- The carousel at a path of the message shown. -/
def carousel? (c : Card σ) (path : String) : Option (CarouselState (Card σ)) :=
  c.carousels.get? ⟨c.identity, path⟩

/-- The pages of a carousel as they are laid out. -/
def strip (s : CarouselState (Card σ)) : StripState := ⟨s.scroll, s.pages.map tree?⟩

/-- The carousel at a path as it is laid out. -/
def strip? (c : Card σ) (path : String) : Option StripState := (c.carousel? path).map strip

/-- The extent of pages side by side. -/
def pagesExtent (spacing : Binary64) (pages : List (Card σ)) : Extent :=
  let trees := pages.map tree?
  ⟨Strip.width spacing (trees.map fun t => t.elim 0 (·.width)),
    Strip.height (trees.map fun t => t.elim 0 (·.height))⟩

/-- The layout of the card settled again from given constraints, with given bitmaps. -/
def resettle [RelationSolver σ] (c : Card σ) (live : LiveLayout σ) (board : Board σ)
    (images : Table Nat LoadedImage) : Except SystemError (Card σ) := do
  let settled ← settle c.settings c.strip? live.root images { live.measured with board }
  return { c with live := some settled }

end Card
end MessageCard
