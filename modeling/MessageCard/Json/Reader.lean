import MessageCard.Json.Number

/-!
# Reading JSON

The reader is a machine that takes one character after another: a stack of containers that are open,
and a mode that says what may come next. So the effect of a piece of text depends only on the state
before it, and a document is read by folding over its characters.

A fault carries the line and the column where it was noticed. Columns count the bytes of the line; a
fault at a line break belongs to column zero of the next line.
-/
namespace MessageCard.Json

/-- What is wrong with a text as JSON. -/
inductive SyntaxError where
  | endInValue
  | endInObject
  | endInArray
  | endInString
  | expectedValue
  | expectedWord
  | expectedColon
  | expectedCommaOrBrace
  | expectedCommaOrBracket
  | keyNotString
  | trailingComma
  | trailingCharacters
  | invalidNumber
  | numberOutOfRange
  | invalidEscape
  | endOfHexEscape
  | loneSurrogate
  | controlCharacter
  | invalidCodePoint
  | recursionLimit
  deriving DecidableEq, Repr

def SyntaxError.text : SyntaxError → String
  | .endInValue => "EOF while parsing a value"
  | .endInObject => "EOF while parsing an object"
  | .endInArray => "EOF while parsing a list"
  | .endInString => "EOF while parsing a string"
  | .expectedValue => "expected value"
  | .expectedWord => "expected ident"
  | .expectedColon => "expected `:`"
  | .expectedCommaOrBrace => "expected `,` or `\x7d`"
  | .expectedCommaOrBracket => "expected `,` or `]`"
  | .keyNotString => "key must be a string"
  | .trailingComma => "trailing comma"
  | .trailingCharacters => "trailing characters"
  | .invalidNumber => "invalid number"
  | .numberOutOfRange => "number out of range"
  | .invalidEscape => "invalid escape"
  | .endOfHexEscape => "unexpected end of hex escape"
  | .loneSurrogate => "lone leading surrogate in hex escape"
  | .controlCharacter =>
    "control character (\\u0000-\\u001F) found while parsing a string"
  | .invalidCodePoint => "invalid unicode code point"
  | .recursionLimit => "recursion limit exceeded"

/-- A place in a text. -/
structure Position where
  line : Nat
  column : Nat
  deriving DecidableEq, Repr

/-- The place after some bytes of a character. -/
def Position.after (p : Position) (c : Char) (bytes : Nat) : Position :=
  if bytes = 0 then p
  else if c = '\n' then ⟨p.line + 1, 0⟩
  else ⟨p.line, p.column + bytes⟩

/-- A syntax error and where it was noticed. -/
structure SyntaxFault where
  error : SyntaxError
  position : Position
  deriving DecidableEq, Repr

/-- The text of a fault, with its place. -/
def SyntaxFault.message (f : SyntaxFault) : String :=
  f.error.text ++ " at line " ++ toString f.position.line ++ " column " ++
    toString f.position.column

/-- A container that is open. -/
inductive Container where
  /-- The elements so far, the last one first. -/
  | array (items : List Json)
  /-- The members so far, and the key of the next one. -/
  | object (members : List (String × Json)) (key : String)

/-- How far an escape inside a string has come. -/
inductive EscapeState where
  | none
  /-- After a backslash. -/
  | mark
  /-- Inside four hexadecimal digits, after some bytes of them, with the first half of a pair if one
  came before; a wrong digit is only noticed after the fourth byte. -/
  | hex (high : Option Nat) (bytes value : Nat) (valid : Bool)
  /-- After the first half of a surrogate pair. -/
  | pair (high : Nat)
  /-- After the first half of a surrogate pair and a backslash. -/
  | pairMark (high : Nat)
  deriving DecidableEq

/-- What may come next. -/
inductive Mode where
  /-- A value. -/
  | value
  /-- A value, or the end of the array just opened. -/
  | firstItem
  /-- A key, or the end of the object just opened. -/
  | firstKey
  /-- A key. -/
  | nextKey
  /-- The colon after a key. -/
  | colon
  /-- What may follow a value. -/
  | afterValue
  /-- The rest of a word that stands for a value. -/
  | word (rest : List Char) (value : Json)
  /-- The rest of a string, with its characters so far, the last one first. -/
  | text (isKey : Bool) (chars : List Char) (escape : EscapeState)
  | number (scan : NumberScan)

/-- The state of the reader. -/
structure ReaderState where
  containers : List Container
  mode : Mode
  /-- The document, once it is complete. -/
  result : Option Json

/-- An error, with the number of bytes of the current character up to where it is noticed. -/
structure StepFault where
  error : SyntaxError
  bytes : Nat

def blankChars : List Char := [' ', '\t', '\n', '\r']

/-- The greatest number of containers open at once. -/
def depthLimit : Nat := 127

namespace ReaderState

def initial : ReaderState := ⟨[], .value, none⟩

/-- The state after a value is complete. -/
def complete (s : ReaderState) (v : Json) : ReaderState :=
  match s.containers with
  | [] => ⟨[], .afterValue, some v⟩
  | .array items :: rest => ⟨.array (v :: items) :: rest, .afterValue, none⟩
  | .object members key :: rest =>
    ⟨.object (insertMember key v members) key :: rest, .afterValue, none⟩

/-- The state after a container is closed. -/
def close (s : ReaderState) : ReaderState :=
  match s.containers with
  | [] => s
  | .array items :: rest => complete { s with containers := rest } (.array items.reverse)
  | .object members _ :: rest => complete { s with containers := rest } (.object members)

/-- The state after a container is opened. -/
def opened (s : ReaderState) (c : Container) (mode : Mode) : Except StepFault ReaderState :=
  if depthLimit ≤ s.containers.length then .error ⟨.recursionLimit, 1⟩
  else .ok { s with containers := c :: s.containers, mode }

/-- The first character of a value. -/
def startValue (s : ReaderState) (c : Char) : Except StepFault ReaderState :=
  let start (m : Mode) : Except StepFault ReaderState := .ok { s with mode := m }
  match c with
  | 'n' => start (.word ['u', 'l', 'l'] .null)
  | 't' => start (.word ['r', 'u', 'e'] (.bool true))
  | 'f' => start (.word ['a', 'l', 's', 'e'] (.bool false))
  | '"' => start (.text false [] .none)
  | '-' => start (.number (.start true))
  | '[' => s.opened (.array []) .firstItem
  | '\x7b' => s.opened (.object [] "") .firstKey
  | c =>
    match (NumberScan.start false).step c with
    | .continue scan => start (.number scan)
    | _ => .error ⟨.expectedValue, 1⟩

/-- The first character of a key. -/
def startKey (s : ReaderState) (c : Char) : Except StepFault ReaderState :=
  if c = '"' then .ok { s with mode := .text true [] .none } else .error ⟨.keyNotString, 1⟩

/-- A character after a value. -/
def stepAfter (s : ReaderState) (c : Char) : Except StepFault ReaderState :=
  if blankChars.contains c then .ok s
  else match s.containers with
    | [] => .error ⟨.trailingCharacters, 1⟩
    | .array _ :: _ =>
      if c = ',' then .ok { s with mode := .value }
      else if c = ']' then .ok s.close
      else .error ⟨.expectedCommaOrBracket, 1⟩
    | .object _ _ :: _ =>
      if c = ',' then .ok { s with mode := .nextKey }
      else if c = '\x7d' then .ok s.close
      else .error ⟨.expectedCommaOrBrace, 1⟩

/-- Whether a value is expected after a comma of an array. -/
def afterComma (s : ReaderState) : Bool :=
  match s.containers with
  | .array (_ :: _) :: _ => true
  | _ => false

/-- The state after a complete string. -/
def endText (s : ReaderState) (isKey : Bool) (chars : List Char) : ReaderState :=
  let text := String.ofList chars.reverse
  if isKey then
    match s.containers with
    | .object members _ :: rest =>
      { s with containers := .object members text :: rest, mode := .colon }
    | _ => s
  else s.complete (.string text)

/-- The value of a hexadecimal digit. -/
def hexValue? (c : Char) : Option Nat :=
  if '0' ≤ c ∧ c ≤ '9' then some (c.toNat - 48)
  else if 'a' ≤ c ∧ c ≤ 'f' then some (c.toNat - 87)
  else if 'A' ≤ c ∧ c ≤ 'F' then some (c.toNat - 55)
  else none

/-- The character of a short escape. -/
def shortEscape? : Char → Option Char
  | '"' => some '"'
  | '\\' => some '\\'
  | '/' => some '/'
  | 'b' => some '\x08'
  | 'f' => some '\x0c'
  | 'n' => some '\n'
  | 'r' => some '\r'
  | 't' => some '\t'
  | _ => none

/-- What four hexadecimal digits stand for: a character, or the first half of a pair. -/
def endHex (high : Option Nat) (value : Nat) : Except SyntaxError (Char ⊕ Nat) :=
  match high with
  | some h =>
    if 0xDC00 ≤ value ∧ value ≤ 0xDFFF then
      .ok (.inl (Char.ofNat (0x10000 + (h - 0xD800) * 0x400 + (value - 0xDC00))))
    else .error .loneSurrogate
  | none =>
    if 0xDC00 ≤ value ∧ value ≤ 0xDFFF then .error .loneSurrogate
    else if 0xD800 ≤ value ∧ value ≤ 0xDBFF then .ok (.inr value)
    else .ok (.inl (Char.ofNat value))

/-- A character inside a string. -/
def stepText (s : ReaderState) (isKey : Bool) (chars : List Char) (escape : EscapeState)
    (c : Char) : Except StepFault ReaderState :=
  let go (chars : List Char) (escape : EscapeState) : Except StepFault ReaderState :=
    .ok { s with mode := .text isKey chars escape }
  match escape with
  | .none =>
    if c = '"' then .ok (s.endText isKey chars)
    else if c = '\\' then go chars .mark
    else if c.toNat < 32 then .error ⟨.controlCharacter, 1⟩
    else go (c :: chars) .none
  | .mark =>
    if c = 'u' then go chars (.hex none 0 0 true)
    else match shortEscape? c with
      | some d => go (d :: chars) .none
      | none => .error ⟨.invalidEscape, 1⟩
  | .hex high bytes value valid =>
    let valid := valid && (hexValue? c).isSome
    let value := value * 16 + (hexValue? c).getD 0
    if bytes + c.utf8Size < 4 then go chars (.hex high (bytes + c.utf8Size) value valid)
    else if !valid then .error ⟨.invalidEscape, 4 - bytes⟩
    else match endHex high value with
      | .ok (.inl d) => go (d :: chars) .none
      | .ok (.inr h) => go chars (.pair h)
      | .error e => .error ⟨e, 1⟩
  | .pair high => if c = '\\' then go chars (.pairMark high) else .error ⟨.endOfHexEscape, 1⟩
  | .pairMark high =>
    if c = 'u' then go chars (.hex (some high) 0 0 true) else .error ⟨.endOfHexEscape, 1⟩

/-- The state after one more character. -/
def step (s : ReaderState) (c : Char) : Except StepFault ReaderState :=
  match s.mode with
  | .value =>
    if blankChars.contains c then .ok s
    else if c = ']' ∧ s.afterComma then .error ⟨.trailingComma, 1⟩
    else s.startValue c
  | .firstItem =>
    if blankChars.contains c then .ok s else if c = ']' then .ok s.close else s.startValue c
  | .firstKey =>
    if blankChars.contains c then .ok s else if c = '\x7d' then .ok s.close else s.startKey c
  | .nextKey =>
    if blankChars.contains c then .ok s
    else if c = '\x7d' then .error ⟨.trailingComma, 1⟩
    else s.startKey c
  | .colon =>
    if blankChars.contains c then .ok s
    else if c = ':' then .ok { s with mode := .value }
    else .error ⟨.expectedColon, 1⟩
  | .afterValue => s.stepAfter c
  | .word [] v => (s.complete v).stepAfter c
  | .word (w :: rest) v =>
    if c = w then
      .ok (if rest = [] then s.complete v else { s with mode := .word rest v })
    else .error ⟨.expectedWord, 1⟩
  | .text isKey chars escape => s.stepText isKey chars escape c
  | .number scan =>
    match scan.step c with
    | .continue scan => .ok { s with mode := .number scan }
    | .fault .invalid => .error ⟨.invalidNumber, 1⟩
    | .fault .outOfRange => .error ⟨.numberOutOfRange, 1⟩
    | .complete => match scan.finish with
      | some n => (s.complete (.number n)).stepAfter c
      | none => .error ⟨.numberOutOfRange, 0⟩

/-- What is missing where the text ends, or the document. -/
def finishAfter (s : ReaderState) : Except SyntaxError Json :=
  match s.containers, s.result with
  | .array _ :: _, _ => .error .endInArray
  | .object _ _ :: _, _ => .error .endInObject
  | [], some v => .ok v
  | [], none => .error .endInValue

/-- The document, where the text ends. -/
def finish (s : ReaderState) : Except SyntaxError Json :=
  match s.mode with
  | .value | .nextKey | .word _ _ => .error .endInValue
  | .firstItem => .error .endInArray
  | .firstKey | .colon => .error .endInObject
  | .afterValue => s.finishAfter
  | .text _ _ _ => .error .endInString
  | .number scan =>
    if scan.mayEnd then
      match scan.finish with
      | some n => (s.complete (.number n)).finishAfter
      | none => .error .numberOutOfRange
    else .error .endInValue

end ReaderState

/-- The state and the place after some text. -/
def readChars : ReaderState → Position → List Char → Except SyntaxFault (ReaderState × Position)
  | s, p, [] => .ok (s, p)
  | s, p, c :: rest =>
    match s.step c with
    | .ok s => readChars s (p.after c c.utf8Size) rest
    | .error f => .error ⟨f.error, p.after c f.bytes⟩

/-- The document that a text holds. -/
def ofChars (text : List Char) : Except SyntaxFault Json := do
  let (s, p) ← readChars .initial ⟨1, 0⟩ text
  match s.finish with
  | .ok v => .ok v
  | .error e => .error ⟨e, p⟩

/-- The document that a text holds. -/
def ofText (text : String) : Except SyntaxFault Json := ofChars text.toList

/-- The fault of a text that is followed by bytes that are no character. -/
def brokenFault (text : List Char) : SyntaxFault :=
  match readChars .initial ⟨1, 0⟩ text with
  | .error f => f
  | .ok (s, p) =>
    match s.mode with
    | .text _ _ _ => ⟨.invalidCodePoint, ⟨p.line, p.column + 1⟩⟩
    | _ =>
      match s.step '�' with
      | .error f => ⟨f.error, ⟨p.line, p.column + f.bytes⟩⟩
      | .ok _ => ⟨.expectedValue, ⟨p.line, p.column + 1⟩⟩

end MessageCard.Json
