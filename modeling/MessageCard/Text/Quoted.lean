import MessageCard.Text.Printable

/-!
# Quoted texts in messages

Messages show a text of the input between quotes, with quotes, backslashes and characters that do
not print escaped, so that the shown text is unambiguous and fits on one line.
-/
namespace MessageCard

/-- The hexadecimal digits of a number. -/
def hexDigits (n : Nat) : List Char := Nat.toDigits 16 n

/-- How a character is shown inside quotes. -/
def showChar (c : Char) : List Char :=
  match c with
  | '\x00' => ['\\', '0']
  | '\t' => ['\\', 't']
  | '\r' => ['\\', 'r']
  | '\n' => ['\\', 'n']
  | '"' => ['\\', '"']
  | '\\' => ['\\', '\\']
  | c => if isPrintable c then [c] else '\\' :: 'u' :: '\x7b' :: (hexDigits c.toNat ++ ['\x7d'])

/-- A text between quotes. -/
def quoted (s : String) : String := .ofList ('"' :: (s.toList.flatMap showChar ++ ['"']))

end MessageCard
