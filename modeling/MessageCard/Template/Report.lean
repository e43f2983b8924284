import MessageCard.Template.Fault
import MessageCard.Text.Blank

/-!
# Reports that quote the source

A report shows the message of a fault, the place in the source, the line of the source, and an arrow
from the place to the message again. Places are counted in characters here. Lines end at every
Unicode line break, and a carriage return with a line feed after it is one break.
-/
namespace MessageCard.Report

/-- Whether a character ends a line. -/
def isLineBreak (c : Char) : Bool :=
  c == '\r' || c == '\n' || c == '\x0b' || c == '\x0c' || c == '\u0085' || c == '\u2028' ||
    c == '\u2029'

/-- The lines of a text, each with its break. -/
def lines : List Char → List (List Char)
  | [] => []
  | '\r' :: '\n' :: rest => ['\r', '\n'] :: lines rest
  | c :: rest =>
    if isLineBreak c then [c] :: lines rest
    else match lines rest with
      | [] => [[c]]
      | line :: more => (c :: line) :: more

/-- A line of a text, its number from one, and a character's place in it from zero. -/
structure Place where
  line : List Char
  number : Nat
  column : Nat

/-- The place of a character, counting from the first of some lines. The end of the text belongs to
the last line. -/
def locate : Nat → Nat → List (List Char) → Option Place
  | _, _, [] => none
  | offset, number, line :: rest =>
    if offset < line.length ∨ (rest = [] ∧ offset = line.length) then some ⟨line, number, offset⟩
    else locate (offset - line.length) (number + 1) rest

/-- The distance between tab stops. -/
def tabWidth : Nat := 4

/-- What is shown for a character at a column. -/
def shown (column : Nat) (c : Char) : List Char :=
  if c = '\t' then List.replicate (tabWidth - column % tabWidth) ' '
  else if isBlank c then [' '] else [c]

/-- What is shown for characters from a column on. -/
def shownFrom : Nat → List Char → List Char
  | _, [] => []
  | column, c :: rest => shown column c ++ shownFrom (column + 1) rest

/-- The blanks that bring the arrow below a column of a line. -/
def indent (line : List Char) (column : Nat) : List Char :=
  List.replicate ((shownFrom 0 (line.take column)).length + (column - line.length)) ' '

/-- The rows that quote a line and point at a column of it. -/
def quoteRows (margin number : List Char) (place : Place) (marked : Bool) (message : List Char) :
    List (List Char) :=
  let line := trimEnd place.line
  let arrow := margin ++ ['│', ' '] ++ indent line place.column
  let (head, tail) : List Char × List Char :=
    if marked then (['┬', ' ', ' '], ['╰', '─', '─', ' ']) else (['│', ' '], ['╰', '─', ' '])
  [' ' :: number ++ [' ', '│', ' '] ++ shownFrom 0 line, arrow ++ head, arrow ++ tail ++ message]

/-- The rows of a report about characters from `start` up to `stop` of a source. -/
def rows (source file message : List Char) (start stop : Nat) : List (List Char) :=
  let title := "Error: ".toList ++ message
  match locate start 1 (lines source) with
  | none => [title]
  | some place =>
    let number := (toString place.number).toList
    let margin := List.replicate (number.length + 2) ' '
    let marked := start < stop
    let header := margin ++ ['╭', '─', '['] ++ file ++ ':' :: number ++
      ':' :: (toString (place.column + 1)).toList ++ [']']
    let body := if marked && source.length ≤ start then [margin ++ ['│', ' ']]
      else quoteRows margin number place marked message
    [title, header, margin ++ ['│']] ++ body ++
      [List.replicate (number.length + 2) '─' ++ ['╯']]

end MessageCard.Report

namespace MessageCard

/-- The report of a fault in a source. -/
def TemplateFault.report (f : TemplateFault) (source : List Char) (file : String) : String :=
  let span := f.span source
  .ofList ((Report.rows source file.toList f.message.toList span.start span.stop).flatMap
    (· ++ ['\n']))

end MessageCard
