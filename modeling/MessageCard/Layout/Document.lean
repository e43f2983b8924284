import MessageCard.Layout.Tree
import MessageCard.Template.Document

/-!
# Layouts as JSON

A layout written as a JSON value, with the members of its objects in a fixed order.
-/
namespace MessageCard

def Rect.toJson (r : Rect) : Json :=
  .object [("x", .ofBinary64 r.x), ("y", .ofBinary64 r.y), ("width", .ofBinary64 r.width),
    ("height", .ofBinary64 r.height)]

def PixelSize.toJson (s : PixelSize) : Json := .array [.ofNat s.width, .ofNat s.height]

def NodeStyle.toJson (s : NodeStyle) : Json :=
  .object [("background_color", .ofString? s.backgroundColor),
    ("background_image_url", .ofString? s.backgroundImage),
    ("border_width", .ofBinary64 s.borderWidth), ("border_color", .ofString? s.borderColor),
    ("radius", .ofBinary64 s.radius)]

/-- A text with its lines as they are set. -/
def TextContent.toJson (t : TextContent) : Json :=
  .object [("kind", .string "text"), ("text", .string t.text),
    ("lines", .array (t.lines.map fun l => .string (.ofList l))),
    ("font_size", .ofBinary64 t.fontSize), ("weight", .string t.weight.name),
    ("color", .ofString? t.color), ("align", .string t.align.name),
    ("max_lines", .ofNat t.maxLines), ("is_button", .bool t.isButton)]

/-- An image; its bitmap is known by its size. -/
def ImageContent.toJson (i : ImageContent) : Json :=
  .object [("kind", .string "image"), ("url", .string i.url),
    ("content_mode", .string i.mode.name), ("tint_color", .ofString? i.tint),
    ("is_button", .bool i.isButton),
    ("loaded_size", i.loadedSize.elim .null PixelSize.toJson)]

mutual

/-- A node and all below it. -/
def LayoutNode.toJson : LayoutNode → Json
  | ⟨id, path, content, frame, inner, style, action, hidden, children⟩ =>
    .object [("id", .ofNat id), ("path", .string path), ("kind", contentToJson content),
      ("frame", frame.toJson), ("content", inner.toJson), ("style", style.toJson),
      ("action", action.elim .null Action.toJson), ("hidden", .bool hidden),
      ("children", .array (nodesToJson children))]

/-- What a node shows. -/
def contentToJson : ContentOf (LayoutOf LayoutNode) → Json
  | .root => .object [("kind", .string "root")]
  | .box direction => .object [("kind", .string "box"), ("layout", .string direction.name)]
  | .text t => t.toJson
  | .image i => i.toJson
  | .carousel spacing scroll pages =>
    .object [("kind", .string "carousel"), ("spacing", .ofBinary64 spacing),
      ("scroll_offset", .ofBinary64 scroll), ("pages", .array (pagesToJson pages))]

/-- The pages of a carousel. -/
def pagesToJson : List (PageOf (LayoutOf LayoutNode)) → List Json
  | [] => []
  | ⟨offset, none⟩ :: rest =>
    .object [("offset", .ofBinary64 offset), ("tree", .null)] :: pagesToJson rest
  | ⟨offset, some tree⟩ :: rest =>
    .object [("offset", .ofBinary64 offset), ("tree", layoutToJson tree)] :: pagesToJson rest

/-- A layout. -/
def layoutToJson : LayoutOf LayoutNode → Json
  | ⟨width, height, root⟩ =>
    .object [("width", .ofBinary64 width), ("height", .ofBinary64 height), ("root", root.toJson)]

/-- Nodes with one parent. -/
def nodesToJson : List LayoutNode → List Json
  | [] => []
  | n :: rest => n.toJson :: nodesToJson rest

end
end MessageCard
