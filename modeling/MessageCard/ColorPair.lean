import MessageCard.Text.Blank
import MessageCard.Text.Quoted

/-!
# Color pairs

A color is given as a pair, the color for a light screen and the color for a dark one, separated by
a comma; a single color stands for both. Whether the two sides are told apart is up to a mode.
-/
namespace MessageCard

/-- Which screens the two sides of a color pair are for. -/
inductive ColorMode where
  /-- All screens show the first color. -/
  | light
  /-- All screens show the second color. -/
  | dark
  /-- Every screen shows its own color. -/
  | adaptive
  deriving DecidableEq

/-- How the screen looks. -/
inductive Appearance where
  | light
  | dark
  deriving DecidableEq

/-- The two colors of a pair, one for each appearance. -/
structure ColorPair where
  light : String
  dark : String
  deriving DecidableEq

/-- A color that cannot be used. -/
inductive ColorError where
  /-- A color variable with an empty first color. -/
  | malformedPair (key value : String)
  deriving DecidableEq

/-- The text of an error. -/
def ColorError.message : ColorError → String
  | .malformedPair key value => "malformed color variable `" ++ key ++ "`: " ++ quoted value

namespace ColorPair

def on (p : ColorPair) : Appearance → String
  | .light => p.light
  | .dark => p.dark

/-- The parts of a pair as it is written. -/
def parts (value : String) : List (List Char) := (splitWhen (· = ',') value.toList).map trim

/-- The colors that a written pair stands for. The second one may be missing or empty, the first
one not. -/
def read? (mode : ColorMode) (value : String) : Option ColorPair :=
  let parts := parts value
  let first := parts.headD []
  if first = [] then none
  else
    let second := match parts[1]? with
      | some (c :: cs) => c :: cs
      | _ => first
    some (match mode with
      | .light => ⟨.ofList first, .ofList first⟩
      | .dark => ⟨.ofList second, .ofList second⟩
      | .adaptive => ⟨.ofList first, .ofList second⟩)

/-- The colors of a color variable. -/
def read (mode : ColorMode) (key value : String) : Except ColorError ColorPair :=
  match read? mode value with
  | some p => .ok p
  | none => .error (.malformedPair key value)

end ColorPair

/-- Color variables, each with its colors. -/
abbrev ColorVariables := List (String × ColorPair)

/-- The colors of all color variables, unless one of them is malformed. -/
def readColors (mode : ColorMode) (raw : List (String × String)) :
    Except ColorError ColorVariables :=
  raw.mapM fun p => do return (p.1, ← ColorPair.read mode p.1 p.2)

/-- The colors for one appearance. -/
def ColorVariables.on (colors : ColorVariables) (a : Appearance) : List (String × String) :=
  colors.map fun p => (p.1, p.2.on a)

end MessageCard
