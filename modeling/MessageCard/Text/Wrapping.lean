import MessageCard.Template
import MessageCard.Text.Blank

/-!
# Measuring and wrapping text

The layout knows nothing about fonts. It asks a measurer how wide a line and how high a row is, and
breaks text by the answers: words go on a line while they fit, separated by single spaces, and a
word that does not fit on a line of its own is broken between characters. A line holds at least one
character, so text is never lost to a width that is too small.
-/
namespace MessageCard

structure Font where
  size : Binary64
  weight : FontWeight
  deriving DecidableEq

/-- What the layout needs to know about fonts. -/
structure TextMeasurer where
  /-- The width of a text on a single line. -/
  lineWidth : Font → List Char → Binary64
  /-- The height of one row. -/
  lineHeight : Font → Binary64

/-- The lines of a wrapped text, and the extent they take. -/
structure TextMetrics where
  lines : List (List Char)
  width : Binary64
  height : Binary64

/-- Lines in the making: the finished ones, last first, and the one being filled. -/
structure Fill where
  finished : List (List Char)
  current : List Char

namespace Fill

/-- The line being filled is finished, unless it is empty. -/
def flush (f : Fill) : Fill :=
  if f.current = [] then f else ⟨f.current :: f.finished, []⟩

/-- A character is added; a line that would get too wide by it is finished first. -/
def addChar (fits : List Char → Bool) (f : Fill) (c : Char) : Fill :=
  if f.current ≠ [] && !fits (f.current ++ [c]) then ⟨f.current :: f.finished, [c]⟩
  else ⟨f.finished, f.current ++ [c]⟩

/-- A word is added: on the line when it fits there, else from a new line on. -/
def addWord (fits : List Char → Bool) (f : Fill) (word : List Char) : Fill :=
  let candidate := if f.current = [] then word else f.current ++ ' ' :: word
  if fits candidate then { f with current := candidate }
  else word.foldl (addChar fits) f.flush

/-- The lines, in order. -/
def lines (f : Fill) : List (List Char) := (f.current :: f.finished).reverse

end Fill

/-- The lines of one paragraph, at least one. -/
def wrapParagraph (fits : List Char → Bool) (paragraph : List Char) : List (List Char) :=
  ((words paragraph).foldl (Fill.addWord fits) ⟨[], []⟩).lines

/-- A line cut so that it fits with an ellipsis after it, given last character first. -/
def ellipsize (fits : List Char → Bool) : List Char → List Char
  | [] => ['…']
  | c :: rest =>
    let candidate := ((c :: rest).dropWhile isBlank).reverse ++ ['…']
    if fits candidate then candidate else ellipsize fits rest

/-- At most `limit` lines, the last of them cut where lines are left out; zero sets no limit. -/
def limitLines (fits : List Char → Bool) (limit : Nat) (lines : List (List Char)) :
    List (List Char) :=
  if limit = 0 ∨ lines.length ≤ limit then lines
  else
    let kept := lines.take limit
    match kept.getLast? with
    | none => kept
    | some last => kept.dropLast ++ [ellipsize fits last.reverse]

namespace TextMeasurer

/-- Whether a line fits into a width. -/
def fits (m : TextMeasurer) (font : Font) (width : Binary64) (line : List Char) : Bool :=
  m.lineWidth font line ≤ width

/-- The width of the widest paragraph when nothing wraps. -/
def naturalWidth (m : TextMeasurer) (font : Font) (text : List Char) : Binary64 :=
  .maximum ((paragraphs text).map (m.lineWidth font))

/-- The text broken into lines no wider than a width. -/
def wrap (m : TextMeasurer) (font : Font) (width : Binary64) (limit : Nat) (text : List Char) :
    List (List Char) :=
  let fits := m.fits font width
  limitLines fits limit ((paragraphs text).flatMap (wrapParagraph fits))

/-- The height of a number of lines; no lines take the height of one. -/
def linesHeight (m : TextMeasurer) (font : Font) (count : Nat) : Binary64 :=
  ((max count 1 : Nat) : Binary64) * m.lineHeight font

/-- The text broken into lines, with its extent. -/
def measure (m : TextMeasurer) (font : Font) (width : Binary64) (limit : Nat) (text : List Char) :
    TextMetrics :=
  let lines := m.wrap font width limit text
  ⟨lines, .maximum (lines.map (m.lineWidth font)), m.linesHeight font lines.length⟩

/-- The measurer that gives every character the same advance, a fraction of the font size. -/
def approximate (charRatio lineRatio : Binary64) : TextMeasurer where
  lineWidth font line :=
    let advance := font.size * charRatio
    let weight : Binary64 := match font.weight with
      | .normal => 1
      | .bold => 1.05
    (line.length : Binary64) * advance * weight
  lineHeight font := font.size * lineRatio

end TextMeasurer
end MessageCard
