import MessageCard.Table

/-!
# Placeholders

The text of a template may hold placeholders, names in braces. Before the template is read they are
replaced by the values of a message's variables. This is done on the text alone, in one pass from
left to right that never looks at what it has put in; a name without a value stays as it is. A value
is written so that it can stand in a JSON string.
-/
namespace MessageCard

namespace Placeholder

/-- Whether a character may be part of a placeholder's name. -/
def isNameChar (c : Char) : Bool := c ≠ '\x7b' && c ≠ '\x7d' && c ≠ '"' && c ≠ '\n'

/-- A value as it is put into a JSON string. -/
def escape (value : List Char) : List Char :=
  value.flatMap fun c => if c = '"' then ['\\', '"'] else [c]

/-- A placeholder replaced by its value, or as it stands when it has none. -/
def fill (value? : List Char → Option (List Char)) (name : List Char) : List Char :=
  match if name = [] then none else value? name with
  | some value => escape value
  | none => '\x7b' :: (name ++ ['\x7d'])

/-- The text with its placeholders filled. While a brace is open, the characters after it are held
back, last first. -/
def fillFrom (value? : List Char → Option (List Char)) :
    Option (List Char) → List Char → List Char
  | none, [] => []
  | some held, [] => '\x7b' :: held.reverse
  | none, c :: rest =>
    if c = '\x7b' then fillFrom value? (some []) rest else c :: fillFrom value? none rest
  | some held, c :: rest =>
    if c = '\x7d' then fill value? held.reverse ++ fillFrom value? none rest
    else if c = '\x7b' then '\x7b' :: (held.reverse ++ fillFrom value? (some []) rest)
    else if isNameChar c then fillFrom value? (some (c :: held)) rest
    else '\x7b' :: (held.reverse ++ c :: fillFrom value? none rest)

/-- The text with its placeholders filled. -/
def fillAll (value? : List Char → Option (List Char)) (text : List Char) : List Char :=
  fillFrom value? none text

/-- The value of a name among color variables, or else among the others. -/
def valueIn (values colors : List (String × String)) (name : List Char) :
    Option (List Char) :=
  let key := String.ofList name
  ((Table.findIn key colors).or (Table.findIn key values)).map String.toList

/-- A text with the values of variables filled in; colors take precedence. -/
def bind (values colors : List (String × String)) (text : String) : String :=
  .ofList (fillAll (valueIn values colors) text.toList)

end Placeholder
end MessageCard
