import MessageCard.Binary64.Digits
import MessageCard.Bitmap
import MessageCard.Geometry
import MessageCard.Svg.Escape

/-!
# SVG documents

The elements that a drawing is made of, and the definitions that they refer to: clip rectangles and
tint filters. A definition is named by its kind and by its number among the definitions of its kind.
-/
namespace MessageCard

/-- How a drawing is written. -/
structure SvgSettings where
  /-- A blank margin on every side. -/
  padding : Binary64 := 0
  /-- Whether the document begins with an XML declaration. -/
  declaration : Bool := true
  /-- Spaces for each level of nesting; without it everything is written on one line. -/
  indent : Option Nat := some 2
  /-- What the names of classes begin with. -/
  classStart : String := "mt-"
  /-- The text by which a bitmap is embedded. A bitmap without one is linked. -/
  embed : Bitmap → Option String
  /-- Whether every frame is outlined. -/
  outlines : Bool := false

namespace Svg

/-- An attribute, with its value as it is written. -/
structure Attribute where
  name : String
  written : List Char
  deriving DecidableEq

namespace Attribute

/-- An attribute with a value that may be any text. -/
def text (name value : String) : Attribute := ⟨name, escape value.toList⟩

/-- An attribute with a value that needs no escaping. -/
def word (name value : String) : Attribute := ⟨name, value.toList⟩

/-- An attribute with a number. -/
def number (name : String) (value : Binary64) : Attribute := word name value.toPlain

end Attribute

/-- An element of a drawing. -/
inductive Element where
  /-- An element without content. -/
  | leaf (tag : String) (attributes : List Attribute)
  /-- An element with a text, which is given as it is written. -/
  | text (tag : String) (attributes : List Attribute) (written : List Char)
  /-- An element with elements inside. -/
  | group (tag : String) (attributes : List Attribute) (children : List Element)

/-- Something that elements refer to. -/
inductive Definition where
  | clip (rect : Rect) (radius : Binary64)
  | tint (color : String)
  deriving DecidableEq

namespace Definition

def isClip : Definition → Bool
  | .clip _ _ => true
  | .tint _ => false

/-- The colors of the tint filters among definitions. -/
def tints (defs : List Definition) : List String :=
  defs.filterMap fun
    | .clip _ _ => none
    | .tint color => some color

/-- How many definitions are clip rectangles. -/
def clipCount (defs : List Definition) : Nat := defs.countP isClip

/-- The name of a clip rectangle by its number. -/
def clipName (start : String) (number : Nat) : String := start ++ "clip-" ++ toString number

/-- The name of a tint filter by its number. -/
def tintName (start : String) (number : Nat) : String := start ++ "tint-" ++ toString number

/-- A new clip rectangle: its number, and the definitions with it. -/
def addClip (defs : List Definition) (rect : Rect) (radius : Binary64) :
    Nat × List Definition :=
  (clipCount defs + 1, defs ++ [.clip rect radius])

/-- The tint filter of a color: its number, and the definitions with it. A color that has a filter
already gets that one. -/
def addTint (defs : List Definition) (color : String) : Nat × List Definition :=
  match (tints defs).idxOf? color with
  | some i => (i + 1, defs)
  | none => ((tints defs).length + 1, defs ++ [.tint color])

end Definition

/-! ## Writing -/

/-- A tag with its attributes, up to where it is closed. -/
def writeTag (tag : String) (attributes : List Attribute) : List Char :=
  '<' :: (tag.toList ++ attributes.flatMap fun a =>
    ' ' :: (a.name.toList ++ ('=' :: '"' :: (a.written ++ ['"']))))

/-- The tag that closes an element. -/
def closingTag (tag : String) : List Char := '<' :: '/' :: (tag.toList ++ ['>'])

/-- An element without content. -/
def writeLeaf (tag : String) (attributes : List Attribute) : List Char :=
  writeTag tag attributes ++ ['/', '>']

mutual

/-- The lines of an element, indented by a number of spaces for each level. -/
def lines (indent depth : Nat) : Element → List (List Char)
  | .leaf tag attributes =>
    [List.replicate (indent * depth) ' ' ++ writeLeaf tag attributes]
  | .text tag attributes written =>
    [List.replicate (indent * depth) ' ' ++
      (writeTag tag attributes ++ '>' :: (written ++ closingTag tag))]
  | .group tag attributes children =>
    (List.replicate (indent * depth) ' ' ++ (writeTag tag attributes ++ ['>'])) ::
      (linesOf indent (depth + 1) children ++
        [List.replicate (indent * depth) ' ' ++ closingTag tag])

/-- The lines of elements with one parent. -/
def linesOf (indent depth : Nat) : List Element → List (List Char)
  | [] => []
  | e :: rest => lines indent depth e ++ linesOf indent depth rest

end

/-- The attributes of a rectangle's place and size. -/
def rectAttributes (r : Rect) : List Attribute :=
  [.number "x" r.x, .number "y" r.y, .number "width" r.width, .number "height" r.height]

/-- A definition with its name. -/
def writeDefinition (start : String) (number : Nat) : Definition → List Char
  | .clip rect radius =>
    writeTag "clipPath" [.word "id" (Definition.clipName start number)] ++
      '>' :: (writeLeaf "rect" (rectAttributes rect ++ [.number "rx" radius]) ++
        closingTag "clipPath")
  | .tint color =>
    writeTag "filter" [.word "id" (Definition.tintName start number)] ++
      '>' :: (writeLeaf "feFlood" [.text "flood-color" color] ++
        (writeLeaf "feComposite" [.word "in2" "SourceAlpha", .word "operator" "in"] ++
          closingTag "filter"))

/-- Definitions, the first with the next free number of its kind. -/
def writeDefinitions (start : String) : Nat → Nat → List Definition → List (List Char)
  | _, _, [] => []
  | clips, tints, .clip rect radius :: rest =>
    writeDefinition start (clips + 1) (.clip rect radius) ::
      writeDefinitions start (clips + 1) tints rest
  | clips, tints, .tint color :: rest =>
    writeDefinition start (tints + 1) (.tint color) ::
      writeDefinitions start clips (tints + 1) rest

/-- A block of the document's head; an empty one is left out. -/
def block (indent : Nat) (tag : String) (entries : List (List Char)) : List (List Char) :=
  let space := List.replicate indent ' '
  if entries = [] then []
  else
    (space ++ (writeTag tag [] ++ ['>'])) :: (entries.map (space ++ space ++ ·) ++
      [space ++ closingTag tag])

/-- A drawing of a given size: its style sheet, what its elements refer to, and its elements. -/
structure Document where
  width : Binary64
  height : Binary64
  style : List Char
  definitions : List Definition
  elements : List Element

/-- The tag that opens a document, wide enough for a margin around the drawing. -/
def Document.openingTag (d : Document) (padding : Binary64) : List Char :=
  let origin : Binary64 := if padding = 0 then 0 else -padding
  let width := (d.width + 2 * padding).toPlain
  let height := (d.height + 2 * padding).toPlain
  let viewBox := " ".intercalate [origin.toPlain, origin.toPlain, width, height]
  writeTag "svg" [.word "xmlns" "http://www.w3.org/2000/svg", .word "width" width,
    .word "height" height, .word "viewBox" viewBox] ++ ['>']

/-- The lines of a document. -/
def Document.lines (d : Document) (s : SvgSettings) : List (List Char) :=
  let indent := s.indent.getD 0
  (if s.declaration then ["<?xml version=\"1.0\" encoding=\"UTF-8\"?>".toList] else []) ++
    d.openingTag s.padding :: (block indent "style" [d.style] ++
      (block indent "defs" (writeDefinitions s.classStart 0 0 d.definitions) ++
        (linesOf indent 1 d.elements ++ [closingTag "svg"])))

/-- What stands between two lines. -/
def SvgSettings.lineBreak (s : SvgSettings) : List Char := if s.indent.isSome then ['\n'] else []

/-- The text of a document. -/
def Document.text (d : Document) (s : SvgSettings) : List Char :=
  (SvgSettings.lineBreak s).intercalate (d.lines s)

end Svg
end MessageCard
