/-!
# White space

The characters that separate words and that trimming removes: those with the Unicode property
White_Space.
-/
namespace MessageCard

/-- Whether a character is white space. -/
def isBlank (c : Char) : Bool :=
  let n := c.toNat
  (9 ≤ n && n ≤ 13) || n == 0x20 || n == 0x85 || n == 0xA0 || n == 0x1680 ||
  (0x2000 ≤ n && n ≤ 0x200A) || n == 0x2028 || n == 0x2029 || n == 0x202F || n == 0x205F ||
  n == 0x3000

/-- The text without white space at its start. -/
def trimStart (s : List Char) : List Char := s.dropWhile isBlank

/-- The text without white space at its end. -/
def trimEnd (s : List Char) : List Char := (s.reverse.dropWhile isBlank).reverse

/-- The text without white space at either end. -/
def trim (s : List Char) : List Char := trimEnd (trimStart s)

/-- The parts of a text between the characters that `isBreak` marks, empty parts included. -/
def splitWhen (isBreak : Char → Bool) : List Char → List (List Char)
  | [] => [[]]
  | c :: rest =>
    if isBreak c then [] :: splitWhen isBreak rest
    else match splitWhen isBreak rest with
      | [] => [[c]]
      | part :: parts => (c :: part) :: parts

/-- The words of a text. -/
def words (s : List Char) : List (List Char) := (splitWhen isBlank s).filter (· ≠ [])

/-- The paragraphs of a text. -/
def paragraphs (s : List Char) : List (List Char) := splitWhen (· == '\n') s

end MessageCard
