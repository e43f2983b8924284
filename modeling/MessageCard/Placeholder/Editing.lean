import MessageCard.Placeholder
import MessageCard.Template.Fault

/-!
# Filling placeholders in place

Placeholders can also be filled by editing the text. All of them are found first, each with its
bytes. Then those with values are replaced in the text itself, from the last to the first, so that
an edit moves only text behind the bytes of the placeholders still to come. An edit is impossible
where its bytes do not begin and end between characters.
-/
namespace MessageCard

/-- A text cut at a byte, which may not lie inside a character or past the end. -/
def splitAtByte? : Nat → List Char → Option (List Char × List Char)
  | 0, text => some ([], text)
  | _ + 1, [] => none
  | n + 1, c :: rest =>
    if c.utf8Size ≤ n + 1 then
      (splitAtByte? (n + 1 - c.utf8Size) rest).map fun (before, after) => (c :: before, after)
    else none

/-- A text with the bytes of a span replaced, if the span begins and ends between characters. -/
def replaceBytes? (span : Span) (value text : List Char) : Option (List Char) := do
  let (head, after) ← splitAtByte? span.stop text
  let (before, _) ← splitAtByte? span.start head
  return before ++ value ++ after

namespace Placeholder

/-- A placeholder as it stands in a text: its bytes, with the braces, and its name. -/
structure Occurrence where
  span : Span
  name : List Char
  deriving DecidableEq, Repr

/-- The name of the placeholder that a text begins with. -/
def nameAt? : List Char → Option (List Char)
  | [] => none
  | c :: rest =>
    let name := rest.takeWhile isNameChar
    if c = '\x7b' ∧ name ≠ [] ∧ (rest.dropWhile isNameChar).head? = some '\x7d' then some name
    else none

/-- The placeholders of a text that starts at some byte, from left to right. The search goes on
behind each of them. -/
def occurrencesFrom (offset : Nat) : List Char → List Occurrence
  | [] => []
  | c :: rest =>
    match nameAt? (c :: rest) with
    | some name =>
      let stop := offset + byteLength name + 2
      ⟨⟨offset, stop⟩, name⟩ :: occurrencesFrom stop (rest.drop (name.length + 1))
    | none => occurrencesFrom (offset + c.utf8Size) rest
termination_by text => text.length
decreasing_by
  · simp only [List.length_drop, List.length_cons]
    omega
  · simp

/-- The placeholders of a text, from left to right. -/
def occurrences (text : List Char) : List Occurrence := occurrencesFrom 0 text

/-- The bytes to be replaced, each with the value of the placeholder there. -/
def edits (value? : List Char → Option (List Char)) (found : List Occurrence) :
    List (Span × List Char) :=
  found.filterMap fun o => (value? o.name).map fun value => (o.span, value)

/-- Values put in the place of bytes of a text, from the last to the first. -/
def applyEdits? (edits : List (Span × List Char)) (text : List Char) : Option (List Char) :=
  edits.reverse.foldlM (fun text (span, value) => replaceBytes? span (escape value) text) text

/-- The text with its placeholders filled by editing it. -/
def fillInPlace? (value? : List Char → Option (List Char)) (text : List Char) :
    Option (List Char) :=
  applyEdits? (edits value? (occurrences text)) text

end Placeholder
end MessageCard
