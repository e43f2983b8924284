import MessageCard.Json
import MessageCard.Binary64.Digits

/-!
# Writing JSON

Strings escape what JSON cannot hold raw and nothing else: the quote, the backslash and the control
characters, by a short escape where there is one and by four hexadecimal digits otherwise. A double
always shows a fraction or an exponent. The compact form has no blanks; the spread form puts each
element on a line of its own, two spaces deeper than its container.
-/
namespace MessageCard.Json

/-- A hexadecimal digit. -/
def hexDigit (n : Nat) : Char := Char.ofNat (if n < 10 then 48 + n else 87 + n)

/-- How a character stands inside a string. -/
def escapeChar (c : Char) : List Char :=
  match c with
  | '"' => ['\\', '"']
  | '\\' => ['\\', '\\']
  | '\x08' => ['\\', 'b']
  | '\x0c' => ['\\', 'f']
  | '\n' => ['\\', 'n']
  | '\r' => ['\\', 'r']
  | '\t' => ['\\', 't']
  | c =>
    if c.toNat < 32 then ['\\', 'u', '0', '0', hexDigit (c.toNat / 16), hexDigit (c.toNat % 16)]
    else [c]

/-- How a text stands inside a string. -/
def escape (s : List Char) : List Char := s.flatMap escapeChar

/-- A text as a string with its quotes. -/
def quote (s : String) : List Char := '"' :: (escape s.toList ++ ['"'])

/-- A number as text. -/
def writeNumber : JsonNumber → List Char
  | .integer i => (if i < 0 then ['-'] else []) ++ Binary64.digitChars i.natAbs
  | .real negative m => (if negative then ['-'] else []) ++ m.magnitudeChars

mutual

/-- A value without blanks. -/
def write : Json → List Char
  | .null => ['n', 'u', 'l', 'l']
  | .bool true => ['t', 'r', 'u', 'e']
  | .bool false => ['f', 'a', 'l', 's', 'e']
  | .number n => writeNumber n
  | .string s => quote s
  | .array items => '[' :: writeItems items
  | .object members => '\x7b' :: writeMembers members

/-- The elements of an array, up to its closing bracket. -/
def writeItems : List Json → List Char
  | [] => [']']
  | [x] => write x ++ [']']
  | x :: rest => write x ++ ',' :: writeItems rest

/-- The members of an object, up to its closing brace. -/
def writeMembers : List (String × Json) → List Char
  | [] => ['\x7d']
  | [(k, x)] => quote k ++ ':' :: (write x ++ ['\x7d'])
  | (k, x) :: rest => quote k ++ ':' :: (write x ++ ',' :: writeMembers rest)

end

/-- A new line at a depth of nesting. -/
def lineBreak (depth : Nat) : List Char := '\n' :: List.replicate (2 * depth) ' '

mutual

/-- A value with an element to each line. -/
def spread (depth : Nat) : Json → List Char
  | .array [] => ['[', ']']
  | .object [] => ['\x7b', '\x7d']
  | .array items => '[' :: spreadItems depth items
  | .object members => '\x7b' :: spreadMembers depth members
  | .null => ['n', 'u', 'l', 'l']
  | .bool true => ['t', 'r', 'u', 'e']
  | .bool false => ['f', 'a', 'l', 's', 'e']
  | .number n => writeNumber n
  | .string s => quote s

/-- The elements of an array, each on a line, up to its closing bracket. -/
def spreadItems (depth : Nat) : List Json → List Char
  | [] => [']']
  | [x] => lineBreak (depth + 1) ++ spread (depth + 1) x ++ lineBreak depth ++ [']']
  | x :: rest => lineBreak (depth + 1) ++ spread (depth + 1) x ++ ',' :: spreadItems depth rest

/-- The members of an object, each on a line, up to its closing brace. -/
def spreadMembers (depth : Nat) : List (String × Json) → List Char
  | [] => ['\x7d']
  | [(k, x)] =>
    lineBreak (depth + 1) ++ quote k ++ ':' :: ' ' :: (spread (depth + 1) x ++
      (lineBreak depth ++ ['\x7d']))
  | (k, x) :: rest =>
    lineBreak (depth + 1) ++ quote k ++ ':' :: ' ' :: (spread (depth + 1) x ++
      ',' :: spreadMembers depth rest)

end

/-- A value as compact text. -/
def toText (j : Json) : String := .ofList (write j)

/-- A value as text with an element to each line. -/
def toSpreadText (j : Json) : String := .ofList (spread 0 j)

end MessageCard.Json
