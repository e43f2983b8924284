import MessageCard.Bitmap
import MessageCard.Geometry

/-!
# Layouts

The result of laying out a template: a tree of nodes with their frames, one node for each item and a
root that holds the items of the body. The pages of a carousel are layouts of their own.
-/
namespace MessageCard

/-- The look of a node. -/
structure NodeStyle where
  backgroundColor : Option String
  backgroundImage : Option String
  borderWidth : Binary64
  borderColor : Option String
  /-- The corner radius after clamping. -/
  radius : Binary64
  deriving DecidableEq

/-- The look that a view gives to its node. -/
def View.nodeStyle (v : View) : NodeStyle where
  backgroundColor := v.style.backgroundColor
  backgroundImage := v.style.backgroundImage
  borderWidth := max (v.style.borderWidth.getD 0) 0
  borderColor := v.style.borderColor
  radius := v.style.effectiveRadius v.width v.height

/-- A text as it is set. -/
structure TextContent where
  text : String
  lines : List (List Char)
  fontSize : Binary64
  weight : FontWeight
  color : Option String
  align : HorizontalAlign
  maxLines : Nat
  isButton : Bool

/-- An image as far as it is loaded. -/
structure ImageContent where
  url : String
  mode : ContentMode
  tint : Option String
  isButton : Bool
  /-- The size of the bitmap when it arrived. -/
  loadedSize : Option PixelSize
  bitmap : Option Bitmap

/-- A page of a carousel: where it starts, and its layout unless it has none. -/
structure PageOf (τ : Type) where
  offset : Binary64
  tree : Option τ

/-- What a node shows. -/
inductive ContentOf (τ : Type) where
  | root
  | box (direction : Direction)
  | text (t : TextContent)
  | image (i : ImageContent)
  | carousel (spacing scroll : Binary64) (pages : List (PageOf τ))

/-- A layout over its kind of nodes. -/
structure LayoutOf (ν : Type) where
  width : Binary64
  height : Binary64
  root : ν

/-- A positioned item. -/
structure LayoutNode where
  id : Nat
  /-- The way from the body to the item. -/
  path : String
  content : ContentOf (LayoutOf LayoutNode)
  /-- The outer frame, margins excluded. -/
  frame : Rect
  /-- The frame inset by the padding. -/
  inner : Rect
  style : NodeStyle
  action : Option Action
  /-- Left out for want of space; nothing of it is drawn. -/
  hidden : Bool
  children : List LayoutNode

/-- The layout of one template. -/
abbrev LayoutTree := LayoutOf LayoutNode

mutual

/-- A node and all below it, every node before its children. -/
def LayoutNode.nodes : LayoutNode → List LayoutNode
  | ⟨id, path, content, frame, inner, style, action, hidden, children⟩ =>
    ⟨id, path, content, frame, inner, style, action, hidden, children⟩ :: nodesOf children

/-- The nodes of a list of trees. -/
def nodesOf : List LayoutNode → List LayoutNode
  | [] => []
  | n :: rest => n.nodes ++ nodesOf rest

end

namespace LayoutOf

/-- The nodes of a layout, every node before its children. -/
def nodes (t : LayoutTree) : List LayoutNode := t.root.nodes

/-- The node with a number. -/
def find? (t : LayoutTree) (id : Nat) : Option LayoutNode := t.nodes.find? (·.id = id)

/-- The node at a path. -/
def findPath? (t : LayoutTree) (path : String) : Option LayoutNode := t.nodes.find? (·.path = path)

end LayoutOf
end MessageCard
