import MessageCard.Text.Blank

/-!
# Paths

A path is a text of names with slashes between them. It may begin at the root. An empty name and a
single dot stay where they are, so they are no parts of a path, but for a dot at the beginning; two
dots lead one directory up.
-/
namespace MessageCard

/-- A part of a path. -/
inductive PathPart where
  | root
  /-- A dot at the beginning. -/
  | here
  | up
  | name (text : List Char)
  deriving DecidableEq

namespace FilePath

/-- The names between the slashes of a path, as they are written. -/
def names (path : List Char) : List (List Char) := splitWhen (· = '/') path

/-- Whether a path begins at the root. -/
def isAbsolute (path : List Char) : Bool := path.head? = some '/'

/-- The part of a path that a name stands for, if it leads anywhere. -/
def part? (name : List Char) : Option PathPart :=
  if name = [] ∨ name = ['.'] then none
  else if name = ['.', '.'] then some .up
  else some (.name name)

/-- Where a path begins, if it says so. -/
def beginning? (path : List Char) : Option PathPart :=
  if isAbsolute path then some .root
  else if (names path).head? = some ['.'] then some .here
  else none

/-- The parts of a path. -/
def parts (path : List Char) : List PathPart :=
  (beginning? path).toList ++ (names path).filterMap part?

/-- A path that goes on from another one. One that begins at the root does not. -/
def join (base path : List Char) : List Char :=
  if isAbsolute path then path
  else if base = [] ∨ base.getLast? = some '/' then base ++ path
  else base ++ '/' :: path

end FilePath
end MessageCard
