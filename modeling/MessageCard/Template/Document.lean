import MessageCard.Json.Writer
import MessageCard.Template

/-!
# Templates as JSON

A template written out as a JSON value with every default in place, and with the members of its
objects in a fixed order.
-/
namespace MessageCard

def ActionKind.name : ActionKind → String
  | .web => "web"
  | .custom => "custom"
  | .uikit => "uikit"

def Direction.name : Direction → String
  | .row => "row"
  | .column => "column"

def HorizontalAlign.name : HorizontalAlign → String
  | .left => "left"
  | .center => "center"
  | .right => "right"

def VerticalAlign.name : VerticalAlign → String
  | .top => "top"
  | .center => "center"
  | .bottom => "bottom"

def FontWeight.name : FontWeight → String
  | .normal => "normal"
  | .bold => "bold"

def ContentMode.name : ContentMode → String
  | .aspectFill => "aspectFill"
  | .aspectFit => "aspectFit"
  | .scalesToFill => "scalesToFill"

def Action.toJson (a : Action) : Json :=
  .object [("type", .string a.kind.name), ("data", .string a.data),
    ("alterData", .ofString? a.alternative)]

def Insets.toJson (i : Insets) : Json :=
  .object [("top", .ofBinary64 i.top), ("bottom", .ofBinary64 i.bottom),
    ("left", .ofBinary64 i.left), ("right", .ofBinary64 i.right)]

def Size.toJson : Size → Json
  | .fixed v => .object [("type", .string "fixed"), ("value", .ofBinary64 v)]
  | .fill => .object [("type", .string "flex"), ("value", .string "fillParent")]
  | .wrap => .object [("type", .string "flex"), ("value", .string "wrapContent")]

/-- A number, or null. -/
def numberToJson (x : Option Binary64) : Json := x.elim .null .ofBinary64

def ViewStyle.toJson (s : ViewStyle) : Json :=
  .object [("backgroundColor", .ofString? s.backgroundColor),
    ("backgroundImageUrl", .ofString? s.backgroundImage),
    ("borderWidth", numberToJson s.borderWidth), ("borderColor", .ofString? s.borderColor),
    ("radius", numberToJson s.radius), ("margin", s.margin.toJson),
    ("padding", s.padding.toJson)]

def View.toJson (v : View) : Json :=
  .object [("action", v.action.elim .null Action.toJson), ("viewStyle", v.style.toJson),
    ("width", v.width.toJson), ("height", v.height.toJson)]

def Align.toJson (a : Align) : Json :=
  .object [("horizontal", .string a.horizontal.name), ("vertical", .string a.vertical.name)]

def TextStyle.toJson (s : TextStyle) : Json :=
  .object [("size", numberToJson s.size), ("color", .ofString? s.color),
    ("weight", .string s.weight.name)]

/-- A text or a text button. -/
def TextItem.toJson (isButton : Bool) (t : TextItem) : Json :=
  .object [("type", .string (if isButton then "textButton" else "text")), ("view", t.view.toJson),
    ("text", .string t.text), ("maxTextLines", .ofNat t.maxLines),
    ("textStyle", t.style.toJson), ("align", t.align.toJson)]

/-- The size that a document states for a bitmap. -/
def PixelSize.statedToJson (s : PixelSize) : Json :=
  .object [("pixelWidth", .ofNat s.width), ("pixelHeight", .ofNat s.height)]

/-- An image or an image button. -/
def ImageItem.toJson (isButton : Bool) (i : ImageItem) : Json :=
  .object [("type", .string (if isButton then "imageButton" else "image")),
    ("view", i.view.toJson), ("imageUrl", .string i.url),
    ("imageStyle", .object [("contentMode", .string i.contentMode.name),
      ("tintColor", .ofString? i.tint)]),
    ("metaData", i.pixels.elim .null PixelSize.statedToJson)]

mutual

/-- An item and all inside it. -/
def Item.toJson : Item → Json
  | .box view direction items align =>
    .object [("type", .string "box"), ("view", view.toJson), ("layout", .string direction.name),
      ("items", .array (itemsToJson items)), ("align", align.toJson)]
  | .text isButton t => t.toJson isButton
  | .image isButton i => i.toJson isButton
  | .carousel view pages spacing =>
    .object [("type", .string "carouselView"), ("view", view.toJson),
      ("items", .array (templatesToJson pages)), ("spacing", .ofBinary64 spacing)]

/-- The items of one body or box. -/
def itemsToJson : List Item → List Json
  | [] => []
  | i :: rest => i.toJson :: itemsToJson rest

/-- The body of a template. -/
def bodyToJson : Option (List Item) → Json
  | none => .null
  | some items => .object [("items", .array (itemsToJson items))]

/-- A template. -/
def templateToJson : TemplateOf Item → Json
  | ⟨version, body⟩ => .object [("version", .ofInt version), ("body", bodyToJson body)]

/-- The pages of a carousel. -/
def templatesToJson : List (TemplateOf Item) → List Json
  | [] => []
  | t :: rest => templateToJson t :: templatesToJson rest

end
end MessageCard
