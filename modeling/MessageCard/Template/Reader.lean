import MessageCard.Json.Integer
import MessageCard.Template
import MessageCard.Template.Fault
import MessageCard.Text.Utf8

/-!
# Reading templates

A document is read in two steps. Its JSON is held against records that say which fields an object
may have and of what kind; every number in them is read leniently, and unknown fields are ignored.
Then the defaults are put in for what is absent.

Faults are found in the order of the document: an object before its children, children from first
to last. The first one is reported, with the path that leads to it.
-/
namespace MessageCard

open Json (Field anyField optionalString optionalArray optionalRecord)

namespace TemplateReader

/-! ## The records of the document -/

def insetsFields : List Field :=
  [anyField "top", anyField "bottom", anyField "left", anyField "right"]

def sizeFields : List Field := [optionalString "type", anyField "value"]

def alignFields : List Field := [optionalString "horizontal", optionalString "vertical"]

def actionFields : List Field :=
  [optionalString "type", optionalString "data", optionalString "alterData"]

def viewStyleFields : List Field :=
  [optionalString "backgroundColor", optionalString "backgroundImageUrl", anyField "borderWidth",
    optionalString "borderColor", anyField "radius",
    optionalRecord "margin" "WireInsets" insetsFields,
    optionalRecord "padding" "WireInsets" insetsFields]

def viewFields : List Field :=
  [optionalRecord "action" "WireAction" actionFields,
    optionalRecord "viewStyle" "WireViewStyle" viewStyleFields,
    optionalRecord "width" "WireSize" sizeFields, optionalRecord "height" "WireSize" sizeFields]

def boxFields : List Field :=
  [optionalString "layout", optionalArray "items", optionalRecord "align" "WireAlign" alignFields]

def textStyleFields : List Field :=
  [anyField "size", optionalString "color", optionalString "weight"]

def textFields : List Field :=
  [⟨"text", Json.checkString⟩, anyField "maxTextLines",
    optionalRecord "textStyle" "WireTextStyle" textStyleFields,
    optionalRecord "align" "WireAlign" alignFields]

def imageStyleFields : List Field := [optionalString "contentMode", optionalString "tintColor"]

def metaDataFields : List Field := [anyField "pixelWidth", anyField "pixelHeight"]

def imageFields : List Field :=
  [⟨"imageUrl", Json.checkString⟩, optionalRecord "imageStyle" "WireImageStyle" imageStyleFields,
    optionalRecord "metaData" "WireMetaData" metaDataFields]

def carouselFields : List Field := [optionalArray "items", anyField "spacing"]

def bodyFields : List Field := [optionalArray "items"]

def templateFields : List Field :=
  [anyField "version", optionalRecord "body" "WireBody" bodyFields]

/-! ## Values with their defaults -/

/-- The integer of a field, if it holds one. -/
def integer? (fields : List Field) (j : Json) (name : String) : Option Int :=
  (Json.field? fields j name).bind Json.toInteger?

/-- The integer of a field, or zero. -/
def integer (fields : List Field) (j : Json) (name : String) : Int :=
  (integer? fields j name).getD 0

/-- The length that a field holds. -/
def length? (fields : List Field) (j : Json) (name : String) : Option Binary64 :=
  (integer? fields j name).map fun i => (i : Binary64)

def readInsets (j : Json) : Insets :=
  let side (name : String) : Binary64 := integer insetsFields j name
  ⟨side "top", side "bottom", side "left", side "right"⟩

def readSize (fallback : Size) (j : Json) : Size :=
  let value := integer sizeFields j "value"
  match Json.stringField? sizeFields j "type" with
  | some "fixed" => .fixed (max value 0 : Int)
  | some "flex" => if value = 0 then .fill else .wrap
  | _ => fallback

def readAction (j : Json) : Action :=
  let kind := match Json.stringField? actionFields j "type" with
    | some "web" => ActionKind.web
    | some "uikit" => ActionKind.uikit
    | _ => ActionKind.custom
  ⟨kind, (Json.stringField? actionFields j "data").getD "",
    Json.stringField? actionFields j "alterData"⟩

def readAlign (j : Json) : Align :=
  let horizontal := match Json.stringField? alignFields j "horizontal" with
    | some "center" => HorizontalAlign.center
    | some "right" => HorizontalAlign.right
    | _ => HorizontalAlign.left
  let vertical := match Json.stringField? alignFields j "vertical" with
    | some "center" => VerticalAlign.center
    | some "bottom" => VerticalAlign.bottom
    | _ => VerticalAlign.top
  ⟨horizontal, vertical⟩

/-- The alignment that a field of a record holds. -/
def alignOf (fields : List Field) (j : Json) : Align :=
  ((Json.field? fields j "align").map readAlign).getD .topLeft

/-- What a kind of item puts in for an absent radius and an absent padding. -/
structure StyleDefaults where
  radius : Option Binary64
  padding : Insets

def plainDefaults : StyleDefaults := ⟨none, .none⟩

def buttonDefaults : StyleDefaults := ⟨some 6, ⟨10, 10, 20, 20⟩⟩

/-- The greatest line limit, and the greatest pixel size: the greatest number of 32 bits. -/
def greatestLimit : Int := 4294967295

/-- The line limit of a text button without one. -/
def buttonLines : Nat := 1

/-- The spacing of a carousel without one. -/
def carouselSpacing : Binary64 := 10

def readViewStyle (defaults : StyleDefaults) (j : Json) : ViewStyle where
  backgroundColor := Json.stringField? viewStyleFields j "backgroundColor"
  backgroundImage := Json.stringField? viewStyleFields j "backgroundImageUrl"
  borderWidth := length? viewStyleFields j "borderWidth"
  borderColor := Json.stringField? viewStyleFields j "borderColor"
  radius := (length? viewStyleFields j "radius").or defaults.radius
  margin := ((Json.field? viewStyleFields j "margin").map readInsets).getD .none
  padding := ((Json.field? viewStyleFields j "padding").map readInsets).getD defaults.padding

def readView (defaults : StyleDefaults) (j : Json) : View where
  action := (Json.field? viewFields j "action").map readAction
  style := readViewStyle defaults ((Json.field? viewFields j "viewStyle").getD (.object []))
  width :=
    ((Json.field? viewFields j "width").map (readSize View.plain.width)).getD View.plain.width
  height :=
    ((Json.field? viewFields j "height").map (readSize View.plain.height)).getD View.plain.height

def readTextStyle (j : Json) : TextStyle where
  size := length? textStyleFields j "size"
  color := Json.stringField? textStyleFields j "color"
  weight := match Json.stringField? textStyleFields j "weight" with
    | some "bold" => .bold
    | _ => .normal

def readText (view : View) (lines : Nat) (j : Json) : TextItem where
  view := view
  text := (Json.stringField? textFields j "text").getD ""
  maxLines := match integer? textFields j "maxTextLines" with
    | some n => (max 0 (min n greatestLimit)).toNat
    | none => lines
  style := ((Json.field? textFields j "textStyle").map readTextStyle).getD .plain
  align := alignOf textFields j

/-- A pixel size of two positive numbers of 32 bits. -/
def readPixels (j : Json) : Option PixelSize :=
  let width := integer metaDataFields j "pixelWidth"
  let height := integer metaDataFields j "pixelHeight"
  if 0 < width ∧ width ≤ greatestLimit ∧ 0 < height ∧ height ≤ greatestLimit then
    some ⟨width.toNat, height.toNat⟩
  else none

def readImage (view : View) (j : Json) : ImageItem :=
  let style := (Json.field? imageFields j "imageStyle").getD (.object [])
  { view
    url := (Json.stringField? imageFields j "imageUrl").getD ""
    contentMode := match Json.stringField? imageStyleFields style "contentMode" with
      | some "aspectFit" => .aspectFit
      | some "scalesToFill" => .scalesToFill
      | _ => .aspectFill
    tint := Json.stringField? imageStyleFields style "tintColor"
    pixels := (Json.field? imageFields j "metaData").bind readPixels }

def readDirection (j : Json) : Direction :=
  match Json.stringField? boxFields j "layout" with
  | some "row" => .row
  | _ => .column

/-! ## Documents -/

/-- The path of an element of `items`. -/
def itemPath (parent : String) (index : Nat) : String :=
  parent ++ ".items[" ++ toString index ++ "]"

/-- The elements of a field that holds an array. -/
def elements (fields : List Field) (j : Json) (name : String) : List Json :=
  ((Json.field? fields j name).map Json.items).getD []

/-- The items of a template's body. -/
def bodyElements (body : Json) : List Json := elements bodyFields body "items"

/-- An object held against the fields that it may have. -/
def checked (path : String) (fields : List Field) (j : Json) : Except TemplateFault Unit :=
  match Json.checkMembers fields (Json.recordMembers fields j) with
  | .ok () => .ok ()
  | .error e => .error (.invalidItem path e.message)

/-- An object whose field is present and not null. -/
def requireField (j : Json) (field path : String) : Except TemplateFault Unit :=
  match j.get? field with
  | some v => if v.isNull then .error (.missingField field path) else .ok ()
  | none => .error (.missingField field path)

/-- The value of the field that tells the kind of an item. -/
def itemTag (j : Json) (path : String) : Except TemplateFault String :=
  match j with
  | .object members =>
    match (Json.lookUp "type" members).bind Json.asString? with
    | some tag => .ok tag
    | none => .error (.missingField "type" path)
  | _ => .error (.invalidItem path "item must be a JSON object")

/-- The elements that a field holds are together no larger than the value. -/
theorem sizeOf_elements_le (fields : List Field) (j : Json) (name : String) :
    sizeOf (elements fields j name) ≤ sizeOf j := by
  have least : 1 ≤ sizeOf j := by cases j <;> simp +arith
  unfold elements
  cases h : Json.field? fields j name with
  | none => simpa using least
  | some v =>
    have := Json.sizeOf_field?_lt h
    rcases Json.sizeOf_items_lt v with h | h
    · simp; omega
    · simpa [h] using least

mutual

/-- The template that a value holds. -/
def readTemplate (j : Json) (path : String) : Except TemplateFault Template :=
  match j with
  | .object members => do
    checked path templateFields (.object members)
    match h : Json.field? templateFields (.object members) "body" with
    | none => return ⟨integer templateFields (.object members) "version", none⟩
    | some body =>
      have := Json.sizeOf_field?_lt h
      have := sizeOf_elements_le bodyFields body "items"
      let items ← readItems (bodyElements body) (path ++ ".body") 0
      return ⟨integer templateFields (.object members) "version", some items⟩
  | _ => .error .notAnObject
  termination_by (sizeOf j, 0)
  decreasing_by
    apply Prod.Lex.left
    simp only [bodyElements]
    omega

/-- The items that values hold, the first of them at an index. -/
def readItems (js : List Json) (parent : String) (index : Nat) :
    Except TemplateFault (List Item) :=
  match js with
  | [] => .ok []
  | j :: rest => do
    let item ← readItem j (itemPath parent index)
    let items ← readItems rest parent (index + 1)
    return item :: items
  termination_by (sizeOf js, 0)
  decreasing_by
    all_goals
      apply Prod.Lex.left
      simp only [List.cons.sizeOf_spec]
      omega

/-- The templates that values hold, the first of them at an index. -/
def readPages (js : List Json) (parent : String) (index : Nat) :
    Except TemplateFault (List Template) :=
  match js with
  | [] => .ok []
  | j :: rest => do
    let page ← readTemplate j (itemPath parent index)
    let pages ← readPages rest parent (index + 1)
    return page :: pages
  termination_by (sizeOf js, 0)
  decreasing_by
    all_goals
      apply Prod.Lex.left
      simp only [List.cons.sizeOf_spec]
      omega

/-- The item that a value holds. -/
def readItem (j : Json) (path : String) : Except TemplateFault Item := do
  let tag ← itemTag j path
  checked path viewFields j
  match tag with
  | "box" =>
    checked path boxFields j
    let items ← readItems (elements boxFields j "items") path 0
    return .box (readView plainDefaults j) (readDirection j) items (alignOf boxFields j)
  | "text" =>
    requireField j "text" path
    checked path textFields j
    return .text false (readText (readView plainDefaults j) 0 j)
  | "textButton" =>
    requireField j "text" path
    checked path textFields j
    return .text true (readText (readView buttonDefaults j) buttonLines j)
  | "image" =>
    requireField j "imageUrl" path
    checked path imageFields j
    return .image false (readImage (readView plainDefaults j) j)
  | "imageButton" =>
    requireField j "imageUrl" path
    checked path imageFields j
    return .image true (readImage (readView plainDefaults j) j)
  | "carouselView" =>
    checked path carouselFields j
    let pages ← readPages (elements carouselFields j "items") path 0
    return .carousel (readView plainDefaults j) pages
      ((length? carouselFields j "spacing").getD carouselSpacing)
  | other => .error (.unknownItemType other path)
  termination_by (sizeOf j, 1)
  decreasing_by
    all_goals exact Prod.Lex.right' _ (sizeOf_elements_le _ _ _) Nat.zero_lt_one

end

end TemplateReader

/-- The template that a JSON value holds. -/
def Template.ofJson (j : Json) : Except TemplateFault Template :=
  TemplateReader.readTemplate j "template"

/-- The template that a text holds. -/
def Template.ofChars (source : List Char) : Except TemplateFault Template :=
  match Json.ofChars source with
  | .ok j => Template.ofJson j
  | .error f => .error (.ofSyntax f)

/-- The template that a text holds. -/
def Template.ofText (source : String) : Except TemplateFault Template :=
  Template.ofChars source.toList

/-- The template that the bytes of a text hold. -/
def Template.ofBytes (bytes : List UInt8) : Except TemplateFault Template :=
  match Utf8.decode bytes with
  | (source, true) => Template.ofChars source
  | (source, false) => .error (.ofSyntax (Json.brokenFault source))

/-- The template, unless its version cannot be laid out. -/
def Template.ensureSupported (t : Template) : Except TemplateFault Template :=
  if t.isSupported then .ok t else .error (.unsupportedVersion t.version)

end MessageCard
