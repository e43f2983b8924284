import MessageCard.Layout.Siblings

/-!
# Outlines

The outline of a card has a node for each item of its body, numbered in depth-first order, and on
each node what was decided before solving: whether it is hidden, how many lines a text may have, how
large the pages of a carousel are. The constraints of a layout are read off its outline alone.
-/
namespace MessageCard

/-- A text in its place. -/
structure TextSlot where
  text : String
  font : Font
  color : Option String
  align : HorizontalAlign
  maxLines : Nat
  isButton : Bool
  /-- The width of the text when nothing wraps. -/
  natural : Binary64
  /-- The height at the width that the text is expected to get. -/
  expectedHeight : Binary64
  deriving DecidableEq

/-- An image in its place. -/
structure ImageSlot where
  url : String
  mode : ContentMode
  tint : Option String
  /-- The size that the document states. -/
  pixels : Option PixelSize
  isButton : Bool
  deriving DecidableEq

/-- How the items of a box are stacked. -/
structure Stacking where
  direction : Direction
  align : Align
  /-- A text does not fit, so nothing is left to align. -/
  overflows : Bool
  deriving DecidableEq

/-- What a node of an outline holds. -/
inductive Slot where
  | root
  | box (stacking : Stacking)
  | text (t : TextSlot)
  | image (i : ImageSlot)
  /-- A carousel with pages that take the given extent side by side. -/
  | carousel (spacing : Binary64) (extent : Extent)
  deriving DecidableEq

/-- An item in its place. -/
structure OutlineNode where
  id : Nat
  path : String
  view : View
  hidden : Bool
  /-- The trailing padding may be cut. -/
  loosened : Bool
  slot : Slot
  children : List OutlineNode

/-- How the children of a node are stacked; the root stacks its items like a plain column. -/
def Slot.stacking? : Slot → Option Stacking
  | .root => some ⟨.column, .topLeft, false⟩
  | .box s => some s
  | _ => none

mutual

/-- The number of nodes that an item has in an outline. -/
def Item.count : Item → Nat
  | .box _ _ items _ => 1 + countItems items
  | .text _ _ => 1
  | .image _ _ => 1
  | .carousel _ _ _ => 1

/-- The number of nodes that items have together. -/
def countItems : List Item → Nat
  | [] => 0
  | item :: rest => item.count + countItems rest

end

mutual

/-- A node and all below it, every node before its children. -/
def OutlineNode.nodes : OutlineNode → List OutlineNode
  | ⟨id, path, view, hidden, loosened, slot, children⟩ =>
    ⟨id, path, view, hidden, loosened, slot, children⟩ :: outlineNodes children

/-- The nodes of a list of trees. -/
def outlineNodes : List OutlineNode → List OutlineNode
  | [] => []
  | n :: rest => n.nodes ++ outlineNodes rest

end

/-- The place that an item gets from the box around it. -/
structure Place where
  id : Nat
  path : String
  hidden : Bool
  loosened : Bool
  /-- The width between the item's margins. -/
  available : Binary64
  singleLine : Bool

/-- A node at a place. -/
def Place.node (p : Place) (view : View) (slot : Slot) (children : List OutlineNode) :
    OutlineNode :=
  ⟨p.id, p.path, view, p.hidden, p.loosened, slot, children⟩

/-- The path of an item among the items of a node. -/
def itemPath (path : String) (index : Nat) : String :=
  path ++ ".items[" ++ toString index ++ "]"

/-- The items of a box while they are being placed. -/
structure Siblings where
  path : String
  axis : Axis
  /-- The width of the box's content. -/
  inner : Binary64
  /-- The box is hidden, and so is everything in it. -/
  hidden : Bool
  plan : SiblingPlan

/-- The place of the item with an index. -/
def Siblings.place (s : Siblings) (id index : Nat) (item : Item) : Place where
  id := id
  path := itemPath s.path index
  hidden := s.hidden || s.plan.hides s.axis index item
  loosened := s.plan.loosens index
  available := item.view.available s.inner
  singleLine := s.plan.singleLine

/-- The items of a box at a place. -/
def Place.siblings (p : Place) (s : LayoutSettings) (sizes : ImageSizes) (view : View)
    (direction : Direction) (items : List Item) : Siblings :=
  let inner := view.innerWidth p.available
  let plan := if p.hidden then .none else .of s sizes direction inner view.innerHeight? items
  ⟨p.path, direction.axis, inner, p.hidden, plan⟩

/-- A text at a place. -/
def Place.textSlot (p : Place) (s : LayoutSettings) (isButton : Bool) (t : TextItem) :
    TextSlot where
  text := t.text
  font := s.font t.style
  color := t.style.color
  align := t.align.horizontal
  maxLines := t.lineLimit p.singleLine
  isButton := isButton
  natural := s.naturalWidth t
  expectedHeight := s.measuredHeight t p.available p.singleLine

/-- An image in its place. -/
def ImageItem.slot (i : ImageItem) (isButton : Bool) : ImageSlot :=
  ⟨i.url, i.contentMode, i.tint, i.pixels, isButton⟩

end MessageCard
