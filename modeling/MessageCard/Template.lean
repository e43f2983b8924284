import MessageCard.Binary64

/-!
# Message templates

A template describes the card of one message: a list of items, drawn top to bottom. Items are boxes
that hold items, texts, images, and carousels whose pages are templates of their own. Every default
is in place: a template holds no value that its reader would still have to guess.
-/
namespace MessageCard

/-- Insets of the four edges, for margins and paddings. -/
structure Insets where
  top : Binary64
  bottom : Binary64
  left : Binary64
  right : Binary64
  deriving DecidableEq

namespace Insets

def none : Insets := ⟨0, 0, 0, 0⟩

/-- What the insets take from a width. -/
def horizontal (i : Insets) : Binary64 := i.left + i.right

/-- What the insets take from a height. -/
def vertical (i : Insets) : Binary64 := i.top + i.bottom

end Insets

/-- How one side of an item gets its length. -/
inductive Size where
  | fixed (value : Binary64)
  /-- Takes what the parent has left. -/
  | fill
  /-- Hugs the content. -/
  | wrap
  deriving DecidableEq

namespace Size

def fixedValue : Size → Option Binary64
  | .fixed v => some v
  | _ => none

def isFixed : Size → Bool
  | .fixed _ => true
  | _ => false

def isFill : Size → Bool
  | .fill => true
  | _ => false

def isWrap : Size → Bool
  | .wrap => true
  | _ => false

end Size

inductive ActionKind where
  | web
  | custom
  | uikit
  deriving DecidableEq

/-- What a tap on an item does. -/
structure Action where
  kind : ActionKind
  data : String
  alternative : Option String
  deriving DecidableEq

/-- The look of an item's frame. -/
structure ViewStyle where
  backgroundColor : Option String
  backgroundImage : Option String
  borderWidth : Option Binary64
  borderColor : Option String
  radius : Option Binary64
  margin : Insets
  padding : Insets
  deriving DecidableEq

namespace ViewStyle

def plain : ViewStyle := ⟨none, none, none, none, none, .none, .none⟩

/-- The corner radius after clamping: at most half of each fixed side. -/
def effectiveRadius (s : ViewStyle) (width height : Size) : Binary64 :=
  let halved (radius : Binary64) : Size → Binary64
    | .fixed side => min radius (side / 2)
    | _ => radius
  max (halved (halved (max (s.radius.getD 0) 0) width) height) 0

end ViewStyle

/-- What every item has. -/
structure View where
  action : Option Action
  style : ViewStyle
  width : Size
  height : Size
  deriving DecidableEq

/-- An item's view when its document says nothing: as wide as the parent, as high as its content. -/
def View.plain : View := ⟨none, .plain, .fill, .wrap⟩

/-- The axis along which a box stacks its items. -/
inductive Direction where
  | row
  | column
  deriving DecidableEq

inductive HorizontalAlign where
  | left
  | center
  | right
  deriving DecidableEq

inductive VerticalAlign where
  | top
  | center
  | bottom
  deriving DecidableEq

structure Align where
  horizontal : HorizontalAlign
  vertical : VerticalAlign
  deriving DecidableEq

def Align.topLeft : Align := ⟨.left, .top⟩

inductive FontWeight where
  | normal
  | bold
  deriving DecidableEq

structure TextStyle where
  size : Option Binary64
  color : Option String
  weight : FontWeight
  deriving DecidableEq

def TextStyle.plain : TextStyle := ⟨none, none, .normal⟩

/-- A text or a text button. -/
structure TextItem where
  view : View
  text : String
  /-- The greatest number of lines; zero sets no limit. -/
  maxLines : Nat
  style : TextStyle
  align : Align
  deriving DecidableEq

/-- How a bitmap fills its frame. -/
inductive ContentMode where
  | aspectFill
  | aspectFit
  | scalesToFill
  deriving DecidableEq

/-- The size of a bitmap in pixels. -/
structure PixelSize where
  width : Nat
  height : Nat
  deriving DecidableEq

/-- The height for each unit of width; an empty bitmap has none. -/
def PixelSize.ratio (s : PixelSize) : Option Binary64 :=
  if s.width = 0 ∨ s.height = 0 then none else some ((s.height : Binary64) / (s.width : Binary64))

/-- An image or an image button. -/
structure ImageItem where
  view : View
  url : String
  contentMode : ContentMode
  tint : Option String
  /-- The size the document expects the bitmap to have. -/
  pixels : Option PixelSize
  deriving DecidableEq

/-- A template over its kind of items. -/
structure TemplateOf (α : Type) where
  version : Int
  body : Option (List α)

/-- One node of a template. -/
inductive Item where
  | box (view : View) (direction : Direction) (items : List Item) (align : Align)
  | text (isButton : Bool) (text : TextItem)
  | image (isButton : Bool) (image : ImageItem)
  | carousel (view : View) (pages : List (TemplateOf Item)) (spacing : Binary64)

/-- A template document. -/
abbrev Template := TemplateOf Item

/-- The versions of templates that can be laid out. -/
def supportedVersions : List Int := [1, 2]

/-- Whether the template's version can be laid out. -/
def TemplateOf.isSupported {α : Type} (t : TemplateOf α) : Bool :=
  supportedVersions.contains t.version

namespace Item

def view : Item → View
  | .box v _ _ _ => v
  | .text _ t => t.view
  | .image _ i => i.view
  | .carousel v _ _ => v

def asText : Item → Option TextItem
  | .text _ t => some t
  | _ => none

end Item
end MessageCard
