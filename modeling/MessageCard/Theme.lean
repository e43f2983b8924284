import MessageCard.ColorPair
import MessageCard.Table
import MessageCard.Toml.Reader

/-!
# Themes

A theme names the colors of the parts that no template colors, and the texts shown where a template
cannot be. What a theme leaves out is taken from the standard one.
-/
namespace MessageCard

/-- The texts shown in place of a template that cannot be. -/
structure StandInText where
  title : String
  subtitle : Option String
  deriving DecidableEq

/-- Colors by token, and the texts of stand-ins. -/
structure Theme where
  name : Option String
  mode : ColorMode
  /-- The color pairs as they are written. -/
  colors : Table String String
  standIn : StandInText

namespace Theme

/-- The theme used where none is given: neutral grays. -/
def standard : Theme where
  name := some "default"
  mode := .adaptive
  colors := .ofList
    [("error-background", "#eeeeee,#2c2c2c"), ("error-title", "#212121,#e0e0e0"),
      ("error-subtitle", "#757575,#9e9e9e"), ("downloading-background", "#eeeeee,#2c2c2c"),
      ("text-default", "#212121,#e0e0e0")]
  standIn := ⟨"(Unknown message type)", some "Can't display this message."⟩

/-- The color of a token that no theme knows. -/
def lastResort : String := "#000000"

/-- The written pair of a token. -/
def pair? (t : Theme) (token : String) : Option String := t.colors.find? token

/-- The color that a written pair stands for, unless it is malformed. -/
def pick? (t : Theme) (a : Appearance) (pair : String) : Option String :=
  (ColorPair.read? t.mode pair).map (·.on a)

/-- The color of a token: from this theme, else from the standard one, else black. -/
def color (t : Theme) (token : String) (a : Appearance) : String :=
  (((t.pair? token).bind (t.pick? a)).or ((standard.pair? token).bind (t.pick? a))).getD lastResort

/-! ## Reading themes -/

/-- The mode that a name stands for. -/
def modeOfName? : String → Option ColorMode
  | "light" => some .light
  | "dark" => some .dark
  | "default" => some .adaptive
  | _ => none

/-- An optional text: absent is fine, anything but a text is not. -/
def optionalText? : Option Toml → Option (Option String)
  | none => some none
  | some v => v.asString?.map some

/-- The name of a theme, given in a table or alone in an array. -/
def nameOf? : Toml → Option (Option String)
  | .table entries => optionalText? (Toml.lookUp "name" entries)
  | .array (name :: _) => name.asString?.map some
  | _ => none

/-- The texts of stand-ins, given in a table or one after the other in an array. -/
def standInOf? : Toml → Option StandInText
  | .table entries => do
    let title ← (← Toml.lookUp "title" entries).asString?
    return ⟨title, ← optionalText? (Toml.lookUp "subtitle" entries)⟩
  | .array (title :: rest) => do return ⟨← title.asString?, ← optionalText? rest.head?⟩
  | _ => none

/-- The colors of a theme, every one of them a text. -/
def colorsOf? : Toml → Option (Table String String)
  | .table entries => do
    let pairs ← entries.mapM fun e => e.2.asString?.map (e.1, ·)
    return .ofList pairs
  | _ => none

/-- A part of a theme, or what stands for it when the theme leaves it out. -/
def partOr? {α : Type} (entries : List (String × Toml)) (key : String) (read? : Toml → Option α)
    (otherwise : α) : Option α :=
  match Toml.lookUp key entries with
  | none => some otherwise
  | some v => read? v

/-- The theme that a TOML document describes. -/
def ofToml? : Toml → Option Theme
  | .table entries => do
    let name ← partOr? entries "metadata" nameOf? none
    let mode ← partOr? entries "mode" (fun v => v.asString?.bind modeOfName?) .adaptive
    let colors ← partOr? entries "colors" colorsOf? .empty
    let standIn ← partOr? entries "fallback" standInOf? standard.standIn
    return ⟨name, mode, colors, standIn⟩
  | _ => none

/-- The theme that a TOML text describes. -/
def ofText? (text : String) : Option Theme := (Toml.ofText? text).bind ofToml?

end Theme
end MessageCard
