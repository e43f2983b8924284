import MessageCard.Layout.Tree
import MessageCard.StandIn
import MessageCard.Svg

/-!
# Drawing a layout

Every node is drawn as a group with its background, its content and its children, in this order; a
hidden node is not drawn. The pages of a carousel are drawn side by side behind a clip rectangle,
those out of sight left out. Colors that the template does not give come from the theme.
-/
namespace MessageCard
namespace Svg

/-- What a drawing depends on besides the layout. -/
structure Ink where
  settings : SvgSettings
  /-- The color of texts without one. -/
  text : String
  /-- The color of images that have not arrived. -/
  placeholder : String

namespace Ink

/-- The attribute with the names of classes. -/
def classes (i : Ink) (names : List String) : Attribute :=
  .word "class" (" ".intercalate (names.map (i.settings.classStart ++ ·)))

/-- The attribute that clips an element by a clip rectangle. -/
def clipPath (i : Ink) (number : Nat) : Attribute :=
  .word "clip-path" ("url(#" ++ Definition.clipName i.settings.classStart number ++ ")")

/-- The attribute that paints an element in the color of a tint filter. -/
def filter (i : Ink) (number : Nat) : Attribute :=
  .word "filter" ("url(#" ++ Definition.tintName i.settings.classStart number ++ ")")

/-- A rectangle with round corners. -/
def rect (i : Ink) (r : Rect) (radius : Binary64) (kind : String) (look : List Attribute) :
    Element :=
  .leaf "rect" ([i.classes ["rect", kind]] ++ rectAttributes r ++
    (if 0 < radius then [.number "rx" radius] else []) ++ look)

/-- A picture in a rectangle. -/
def image (i : Ink) (r : Rect) (source aspect : String) (kinds : List String)
    (look : List Attribute) : Element :=
  .leaf "image" ([i.classes ("image" :: kinds)] ++ rectAttributes r ++
    [.text "href" source, .word "preserveAspectRatio" aspect] ++ look)

/-- The outline of a frame, drawn to see where it is. -/
def outline (i : Ink) (n : LayoutNode) : List Element :=
  if i.settings.outlines then
    [i.rect n.frame 0 (if n.hidden then "debug-hidden" else "debug")
      [.word "fill" "none", .word "stroke" "#ff00ff", .word "stroke-width" "0.5"]]
  else []

/-- The border of a frame, which needs a color and a width. -/
def stroke (s : NodeStyle) : List Attribute :=
  match s.borderColor with
  | some color =>
    if 0 < s.borderWidth then [.text "stroke" color, .number "stroke-width" s.borderWidth] else []
  | none => []

/-- The background color and the border of a node. -/
def backdrop (i : Ink) (n : LayoutNode) : List Element :=
  let fill := match n.style.backgroundColor with
    | some color => Attribute.text "fill" color
    | none => .word "fill" "none"
  if n.style.backgroundColor = none ∧ stroke n.style = [] then []
  else [i.rect n.frame n.style.radius "frame" (fill :: stroke n.style)]

/-- The background image, the background color and the border of a node. -/
def background (i : Ink) (n : LayoutNode) (defs : List Definition) :
    List Element × List Definition :=
  match n.style.backgroundImage with
  | none => (i.backdrop n, defs)
  | some url =>
    let (number, defs) := Definition.addClip defs n.frame n.style.radius
    (i.image n.frame url "xMidYMid slice" ["background"] [i.clipPath number] :: i.backdrop n, defs)

/-- The lines of a text, spread evenly over the height of the frame. -/
def textLines (i : Ink) (inner : Rect) (t : TextContent) : List Element :=
  let lineHeight := inner.height / (t.lines.length : Binary64)
  let (x, anchor) := match t.align with
    | .left => (inner.x, "start")
    | .center => (inner.center.x, "middle")
    | .right => (inner.right, "end")
  let look := [Attribute.text "fill" (t.color.getD i.text), .number "font-size" t.fontSize] ++
    (if t.weight = .bold then [.word "font-weight" "bold"] else [])
  let kinds := "text" :: (if t.isButton then ["button"] else [])
  t.lines.zipIdx.map fun (line, index) =>
    let y := inner.y + lineHeight * ((index : Binary64) + 0.5)
    .text "text" ([i.classes kinds, .number "x" x, .number "y" y, .word "text-anchor" anchor,
      .word "dominant-baseline" "middle"] ++ look) (escape line)

/-- The ratio of a circle's circumference to its diameter. -/
def pi : Binary64 := 3.141592653589793

/-- A spinner in the middle of a rectangle: three quarters of a circle. -/
def spinner (i : Ink) (inner : Rect) (color : String) : Element :=
  let radius := max (min inner.width inner.height / 2 - 2) 1
  let circumference := 2 * pi * radius
  let dashes := (circumference * 0.75).toPlain ++ " " ++ (circumference * 0.25).toPlain
  .leaf "circle" [i.classes ["spinner"], .number "cx" inner.center.x, .number "cy" inner.center.y,
    .number "r" radius, .word "fill" "none", .text "stroke" color, .word "stroke-width" "2",
    .word "stroke-dasharray" dashes]

/-- How a bitmap keeps its proportions. -/
def aspect : ContentMode → String
  | .aspectFit => "xMidYMid meet"
  | .aspectFill => "xMidYMid slice"
  | .scalesToFill => "none"

/-- An image: its bitmap embedded or linked, over a placeholder while there is none. -/
def picture (i : Ink) (inner : Rect) (radius : Binary64) (image : ImageContent)
    (defs : List Definition) : List Element × List Definition :=
  if image.url = StandIn.spinnerUrl then
    ([i.spinner inner (image.tint.getD i.text)], defs)
  else
    let source := ((image.bitmap.bind i.settings.embed).map
      ("data:image/png;base64," ++ ·)).getD image.url
    let placeholder := if image.bitmap.isSome then []
      else [i.rect inner radius "image-placeholder" [.text "fill" i.placeholder]]
    let (number, defs) := Definition.addClip defs inner radius
    let (tint, defs) := match image.tint with
      | none => ([], defs)
      | some color =>
        let (number, defs) := Definition.addTint defs color
        ([i.filter number], defs)
    (placeholder ++ [i.image inner source (aspect image.mode)
      (if image.isButton then ["button"] else []) (i.clipPath number :: tint)], defs)

/-- The class of a node by what it shows. -/
def kind {τ : Type} : ContentOf τ → String
  | .root => "root"
  | .box _ => "box"
  | .text _ => "text-item"
  | .image _ => "image-item"
  | .carousel _ _ _ => "carousel"

/-- The attributes of a node's group. -/
def groupAttributes (i : Ink) (n : LayoutNode) : List Attribute :=
  [.text "id" n.path,
    i.classes (kind n.content :: (if n.action.isSome then ["action"] else []))]

/-- The attribute that moves a group. -/
def translate (x y : Binary64) : Attribute :=
  .word "transform" ("translate(" ++ x.toPlain ++ " " ++ y.toPlain ++ ")")

end Ink

mutual

/-- The elements of a node, and the definitions with those that they refer to. -/
def drawNode (i : Ink) : LayoutNode → List Definition → List Element × List Definition
  | ⟨id, path, content, frame, inner, style, action, hidden, children⟩, defs =>
    let n : LayoutNode := ⟨id, path, content, frame, inner, style, action, hidden, children⟩
    if hidden then (i.outline n, defs)
    else
      let (behind, defs) := i.background n defs
      let (shown, defs) := drawContent i inner style.radius content defs
      let (below, defs) := drawNodes i children defs
      (i.outline n ++ [.group "g" (i.groupAttributes n) (behind ++ shown ++ below)], defs)

/-- The elements of what a node shows. -/
def drawContent (i : Ink) (inner : Rect) (radius : Binary64) :
    ContentOf (LayoutOf LayoutNode) → List Definition → List Element × List Definition
  | .root, defs => ([], defs)
  | .box _, defs => ([], defs)
  | .text t, defs => (i.textLines inner t, defs)
  | .image image, defs => i.picture inner radius image defs
  | .carousel _ scroll pages, defs =>
    let (number, defs) := Definition.addClip defs inner 0
    let (shown, defs) := drawPages i inner scroll pages defs
    ([.group "g" [i.clipPath number] shown], defs)

/-- The pages of a carousel that are in sight. -/
def drawPages (i : Ink) (inner : Rect) (scroll : Binary64) :
    List (PageOf (LayoutOf LayoutNode)) → List Definition → List Element × List Definition
  | [], defs => ([], defs)
  | ⟨_, none⟩ :: rest, defs => drawPages i inner scroll rest defs
  | ⟨offset, some ⟨width, _, root⟩⟩ :: rest, defs =>
    let x := inner.x + offset - scroll
    if x + width < inner.x ∨ inner.right < x then drawPages i inner scroll rest defs
    else
      let (page, defs) := drawNode i root defs
      let (pages, defs) := drawPages i inner scroll rest defs
      (.group "g" [i.classes ["page"], Ink.translate x inner.y] page :: pages, defs)

/-- The elements of nodes with one parent. -/
def drawNodes (i : Ink) : List LayoutNode → List Definition → List Element × List Definition
  | [], defs => ([], defs)
  | n :: rest, defs =>
    let (first, defs) := drawNode i n defs
    let (others, defs) := drawNodes i rest defs
    (first ++ others, defs)

end

/-- The style sheet: a property for the color of each of the theme's tokens, and the font. -/
def styleSheet (s : SvgSettings) (t : Theme) (a : Appearance) : List Char :=
  let lineBreak := String.ofList (SvgSettings.lineBreak s)
  let tokens := t.colors.keys.mergeSort (fun a b => decide (a ≤ b))
  let property (token : String) : String :=
    "  --" ++ token ++ ": " ++ t.color token a ++ ";" ++ lineBreak
  (":root \x7b" ++ lineBreak ++ String.join (tokens.map property) ++ "\x7d" ++ lineBreak ++
    "." ++ s.classStart ++ "text \x7b font-family: -apple-system, sans-serif; \x7d").toList

/-- The drawing of a layout. -/
def draw (s : SvgSettings) (t : Theme) (a : Appearance) (tree : LayoutTree) : Document :=
  let ink : Ink := ⟨s, t.color "text-default" a, t.color "downloading-background" a⟩
  let (elements, definitions) := drawNode ink tree.root []
  ⟨tree.width, tree.height, styleSheet s t a, definitions, elements⟩

/-- The text of a layout's drawing. -/
def render (s : SvgSettings) (t : Theme) (a : Appearance) (tree : LayoutTree) : String :=
  .ofList ((draw s t a tree).text s)

end Svg
end MessageCard
