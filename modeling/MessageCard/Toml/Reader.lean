import MessageCard.Text.Decimal
import MessageCard.Toml.Document

/-!
# Reading TOML

A reader of a construct takes it from the start of a text and returns the rest, or nothing when the
text does not start with the construct. Values can hold values, so their readers carry a bound on
the depth, for which the length of the text is enough. Dates and times are not read.
-/
namespace MessageCard
namespace Toml

def isSpace (c : Char) : Bool := c = ' ' || c = '\t'

def skipSpaces (s : List Char) : List Char := s.dropWhile isSpace

/-- Whether a character may stand in a comment or a string. -/
def isPlain (c : Char) : Bool := c = '\t' || (0x20 ≤ c.toNat && c.toNat ≠ 0x7F)

/-- The text after an optional comment, which reaches to the end of the line. -/
def skipComment : List Char → List Char
  | '#' :: rest => rest.dropWhile isPlain
  | s => s

/-- The text after a line break. -/
def newline? : List Char → Option (List Char)
  | '\n' :: rest => some rest
  | '\r' :: '\n' :: rest => some rest
  | _ => none

/-- The text after the end of a line, spaces and a comment before it included. -/
def endOfLine? (s : List Char) : Option (List Char) :=
  match skipComment (skipSpaces s) with
  | [] => some []
  | rest => newline? rest

/-! ## Strings -/

def hexDigit? (c : Char) : Option Nat :=
  if '0' ≤ c ∧ c ≤ '9' then some (c.toNat - 48)
  else if 'a' ≤ c ∧ c ≤ 'f' then some (c.toNat - 87)
  else if 'A' ≤ c ∧ c ≤ 'F' then some (c.toNat - 55)
  else none

/-- The character that hexadecimal digits name. -/
def hexChar? (digits : List Char) : Option Char := do
  let n ← digits.foldlM (fun n c => (hexDigit? c).map (n * 16 + ·)) 0
  if n.isValidChar then some (Char.ofNat n) else none

/-- The character that stands for an escape of one letter. -/
def shortEscape? : Char → Option Char
  | 'b' => some '\x08'
  | 't' => some '\t'
  | 'n' => some '\n'
  | 'f' => some '\x0c'
  | 'r' => some '\r'
  | '"' => some '"'
  | '\\' => some '\\'
  | _ => none

/-- A string up to its closing quote; what was read is held last first. -/
def basicBody (held : List Char) : List Char → Option (List Char × List Char)
  | '"' :: rest => some (held.reverse, rest)
  | '\\' :: 'u' :: a :: b :: c :: d :: rest => do basicBody ((← hexChar? [a, b, c, d]) :: held) rest
  | '\\' :: 'U' :: a :: b :: c :: d :: e :: f :: g :: h :: rest => do
    basicBody ((← hexChar? [a, b, c, d, e, f, g, h]) :: held) rest
  | '\\' :: c :: rest => do basicBody ((← shortEscape? c) :: held) rest
  | c :: rest => if isPlain c then basicBody (c :: held) rest else none
  | [] => none

/-- A string without escapes up to its closing quote. -/
def literalBody (held : List Char) : List Char → Option (List Char × List Char)
  | '\'' :: rest => some (held.reverse, rest)
  | c :: rest => if isPlain c then literalBody (c :: held) rest else none
  | [] => none

/-- Quotes that directly follow closing ones; up to two of them belong to the string. -/
def closing (quote : Char) (held : List Char) : List Char → List Char × List Char
  | c :: d :: rest =>
    if c = quote ∧ d = quote then ((quote :: quote :: held).reverse, rest)
    else if c = quote then ((quote :: held).reverse, d :: rest)
    else (held.reverse, c :: d :: rest)
  | [c] => if c = quote then ((quote :: held).reverse, []) else (held.reverse, [c])
  | [] => (held.reverse, [])

/-- Where a string of several lines is being read. -/
inductive LineMode where
  | inText
  /-- After a backslash at the end of a line, before the line break. -/
  | beforeBreak
  /-- After such a line break, where space is left out. -/
  | afterBreak
  deriving DecidableEq

/-- A string of several lines up to its closing quotes. -/
def multiLineBody : LineMode → List Char → List Char → Option (List Char × List Char)
  | .beforeBreak, held, '\n' :: rest => multiLineBody .afterBreak held rest
  | .beforeBreak, held, '\r' :: '\n' :: rest => multiLineBody .afterBreak held rest
  | .beforeBreak, held, c :: rest =>
    if isSpace c then multiLineBody .beforeBreak held rest else none
  | .afterBreak, held, '\n' :: rest => multiLineBody .afterBreak held rest
  | .afterBreak, held, '\r' :: '\n' :: rest => multiLineBody .afterBreak held rest
  | .afterBreak, held, ' ' :: rest => multiLineBody .afterBreak held rest
  | .afterBreak, held, '\t' :: rest => multiLineBody .afterBreak held rest
  | _, held, '"' :: '"' :: '"' :: rest => some (closing '"' held rest)
  | _, held, '\\' :: 'u' :: a :: b :: c :: d :: rest => do
    multiLineBody .inText ((← hexChar? [a, b, c, d]) :: held) rest
  | _, held, '\\' :: 'U' :: a :: b :: c :: d :: e :: f :: g :: h :: rest => do
    multiLineBody .inText ((← hexChar? [a, b, c, d, e, f, g, h]) :: held) rest
  | _, held, '\\' :: '\n' :: rest => multiLineBody .afterBreak held rest
  | _, held, '\\' :: '\r' :: '\n' :: rest => multiLineBody .afterBreak held rest
  | _, held, '\\' :: c :: rest =>
    if isSpace c then multiLineBody .beforeBreak held rest
    else do multiLineBody .inText ((← shortEscape? c) :: held) rest
  | _, held, '\r' :: '\n' :: rest => multiLineBody .inText ('\n' :: held) rest
  | _, held, c :: rest =>
    if c = '\n' || isPlain c then multiLineBody .inText (c :: held) rest else none
  | _, _, [] => none

/-- A string of several lines without escapes up to its closing quotes. -/
def multiLineLiteralBody (held : List Char) : List Char → Option (List Char × List Char)
  | '\'' :: '\'' :: '\'' :: rest => some (closing '\'' held rest)
  | '\r' :: '\n' :: rest => multiLineLiteralBody ('\n' :: held) rest
  | c :: rest =>
    if c = '\n' || isPlain c then multiLineLiteralBody (c :: held) rest else none
  | [] => none

/-- The text after a line break directly after opening quotes, which does not count. -/
def afterOpening (s : List Char) : List Char := (newline? s).getD s

/-! ## Keys -/

def isBareKeyChar (c : Char) : Bool := c.isAlphanum || c = '_' || c = '-'

/-- A key without dots. -/
def simpleKey : List Char → Option (String × List Char)
  | '"' :: rest => (basicBody [] rest).map fun (s, rest) => (.ofList s, rest)
  | '\'' :: rest => (literalBody [] rest).map fun (s, rest) => (.ofList s, rest)
  | s =>
    let name := s.takeWhile isBareKeyChar
    if name = [] then none else some (.ofList name, s.dropWhile isBareKeyChar)

/-- The parts of a key between dots; the bound is on their number. -/
def keyParts : Nat → List Char → Option (List String × List Char)
  | 0, _ => none
  | bound + 1, s => do
    let (first, rest) ← simpleKey (skipSpaces s)
    match skipSpaces rest with
    | '.' :: rest => do
      let (more, rest) ← keyParts bound rest
      return (first :: more, rest)
    | rest => return ([first], rest)

/-- A key, with spaces around it. -/
def key (s : List Char) : Option (List String × List Char) := keyParts (s.length + 1) s

/-! ## Numbers -/

/-- Digits with single underscores between them, the underscores left out. -/
def digits? (isDigit : Char → Bool) : List Char → Option (List Char)
  | [] => none
  | [c] => if isDigit c then some [c] else none
  | c :: '_' :: d :: rest =>
    if isDigit c ∧ isDigit d then (digits? isDigit (d :: rest)).map (c :: ·) else none
  | c :: d :: rest => if isDigit c then (digits? isDigit (d :: rest)).map (c :: ·) else none

/-- Decimal digits that do not begin with a superfluous zero. -/
def wholeDigits? (s : List Char) : Option (List Char) :=
  match digits? Decimal.isDigit s with
  | some ('0' :: _ :: _) => none
  | ds => ds

/-- The number that digits of a base write. -/
def ofDigits (base : Nat) (s : List Char) : Nat :=
  s.foldl (fun n c => n * base + (hexDigit? c).getD 0) 0

/-- The whole number that a text writes. -/
def integer? (s : List Char) : Option Int :=
  let based (base : Nat) (digits : List Char) : Option Int :=
    (digits? (fun c => (hexDigit? c).any (· < base)) digits).map fun ds => ofDigits base ds
  match s with
  | '0' :: 'x' :: rest => based 16 rest
  | '0' :: 'o' :: rest => based 8 rest
  | '0' :: 'b' :: rest => based 2 rest
  | s =>
    let (negative, digits) := Decimal.splitSign s
    (wholeDigits? digits).map fun ds =>
      if negative then -(ofDigits 10 ds : Int) else ofDigits 10 ds

/-- Whether a text writes an exponent. -/
def isExponent : List Char → Bool
  | c :: rest => (c = 'e' || c = 'E') && (digits? Decimal.isDigit (Decimal.splitSign rest).2).isSome
  | [] => false

/-- Whether a text writes a number with a fraction or an exponent, or one that is not finite. -/
def isFloat (s : List Char) : Bool :=
  let (_, body) := Decimal.splitSign s
  let isWholeChar (c : Char) : Bool := Decimal.isDigit c || c = '_'
  let rest := body.dropWhile isWholeChar
  body = ['i', 'n', 'f'] || body = ['n', 'a', 'n'] ||
    ((wholeDigits? (body.takeWhile isWholeChar)).isSome &&
      match rest with
      | '.' :: rest =>
        (digits? Decimal.isDigit (rest.takeWhile isWholeChar)).isSome &&
          (rest.dropWhile isWholeChar = [] || isExponent (rest.dropWhile isWholeChar))
      | rest => isExponent rest)

/-- Whether a character may be part of a number or a truth value. -/
def isWordChar (c : Char) : Bool := c.isAlphanum || c = '_' || c = '+' || c = '-' || c = '.'

/-- A number or a truth value. -/
def word? (s : List Char) : Option Toml :=
  if s = ['t', 'r', 'u', 'e'] then some (.boolean true)
  else if s = ['f', 'a', 'l', 's', 'e'] then some (.boolean false)
  else match integer? s with
    | some i => if leastInt ≤ i ∧ i ≤ greatestInt then some (.integer i) else none
    | none => if isFloat s then some (.float (.ofList s)) else none

/-! ## Values -/

/-- The text after spaces, comments and line breaks; the bound is on the number of lines. -/
def skipLines : Nat → List Char → List Char
  | 0, s => skipSpaces s
  | bound + 1, s =>
    match newline? (skipComment (skipSpaces s)) with
    | some rest => skipLines bound rest
    | none => skipComment (skipSpaces s)

/-- The text after spaces, comments and line breaks. -/
def skipBlank (s : List Char) : List Char := skipLines s.length s

mutual

/-- A value. -/
def value : Nat → List Char → Option (Toml × List Char)
  | 0, _ => none
  | bound + 1, s =>
    match s with
    | '"' :: '"' :: '"' :: rest => do
      let (text, rest) ← multiLineBody .inText [] (afterOpening rest)
      return (.string (.ofList text), rest)
    | '"' :: rest => do
      let (text, rest) ← basicBody [] rest
      return (.string (.ofList text), rest)
    | '\'' :: '\'' :: '\'' :: rest => do
      let (text, rest) ← multiLineLiteralBody [] (afterOpening rest)
      return (.string (.ofList text), rest)
    | '\'' :: rest => do
      let (text, rest) ← literalBody [] rest
      return (.string (.ofList text), rest)
    | '[' :: rest => do
      let (items, rest) ← itemsOrEnd bound (skipBlank rest)
      return (.array items, rest)
    | '\x7b' :: rest =>
      match skipSpaces rest with
      | '\x7d' :: rest => some (.table [], rest)
      | rest => do
        let (assignments, rest) ← assignments bound rest
        return (← ofAssignments? assignments, rest)
    | s => do return (← word? (s.takeWhile isWordChar), s.dropWhile isWordChar)

/-- The items of an array up to its closing bracket. -/
def itemsOrEnd : Nat → List Char → Option (List Toml × List Char)
  | 0, _ => none
  | bound + 1, s =>
    match s with
    | ']' :: rest => some ([], rest)
    | s => do
      let (first, rest) ← value bound s
      match skipBlank rest with
      | ',' :: rest => do
        let (more, rest) ← itemsOrEnd bound (skipBlank rest)
        return (first :: more, rest)
      | ']' :: rest => return ([first], rest)
      | _ => none

/-- The assignments of an inline table up to its closing brace. -/
def assignments : Nat → List Char → Option (List (List String × Toml) × List Char)
  | 0, _ => none
  | bound + 1, s => do
    let (path, rest) ← key s
    match rest with
    | '=' :: rest => do
      let (v, rest) ← value bound (skipSpaces rest)
      match skipSpaces rest with
      | ',' :: rest => do
        let (more, rest) ← assignments bound rest
        return ((path, v) :: more, rest)
      | '\x7d' :: rest => return ([(path, v)], rest)
      | _ => none
    | _ => none

end

/-! ## Documents -/

/-- A statement at the start of a line. -/
def statement (s : List Char) : Option (TomlStatement × List Char) :=
  match s with
  | '[' :: '[' :: rest => do
    let (path, rest) ← key rest
    match rest with
    | ']' :: ']' :: rest => return (.openItem path, rest)
    | _ => none
  | '[' :: rest => do
    let (path, rest) ← key rest
    match rest with
    | ']' :: rest => return (.openTable path, rest)
    | _ => none
  | s => do
    let (path, rest) ← key s
    match rest with
    | '=' :: rest => do
      let (v, rest) ← value (rest.length + 1) (skipSpaces rest)
      return (.assign path v, rest)
    | _ => none

/-- The statements of a document; the bound is on the number of its lines. -/
def statements : Nat → List Char → Option (List TomlStatement)
  | 0, _ => none
  | bound + 1, s =>
    match skipSpaces s with
    | [] => some []
    | s =>
      match endOfLine? s with
      | some rest => statements bound rest
      | none => do
        let (first, rest) ← statement s
        return first :: (← statements bound (← endOfLine? rest))

/-- The text after a byte order mark. -/
def skipMark : List Char → List Char
  | '\uFEFF' :: rest => rest
  | s => s

/-- The document that a text holds. -/
def ofText? (text : String) : Option Toml := do
  let s := skipMark text.toList
  ofStatements? (← statements (s.length + 1) s)

end Toml
end MessageCard
