import MessageCard.CommandLine.Arguments
import MessageCard.FileTree
import MessageCard.Layout.Document
import MessageCard.Payload
import MessageCard.Preview
import MessageCard.Template.Report

/-!
# The command

The command reads a template, from a file or from its input, and writes a preview of it. Variables
come from a payload and from the arguments, which count for more. It succeeds with code 0, fails
with code 1 and a text that says why, and rejects its arguments with code 2.
-/
namespace MessageCard

/-- What the command leaves behind. -/
structure Outcome where
  code : Nat
  output : String
  errors : String
  deriving DecidableEq

namespace CommandOptions

/-- The files that are read. -/
def paths (s : CommandOptions) : List String :=
  s.theme.toList ++ s.file.toList ++ s.payload.toList

/-- What the input is called where there is no file. -/
def inputName : String := "<stdin>"

/-- The text of a file, or what to say about it. -/
def readFile (read : String → Except FileError String) (path : String) : Except String String :=
  (read path).mapError fun e => "Error reading file '" ++ path ++ "': " ++ e.message ++ "\n"

/-- The theme that was asked for. -/
def readTheme (s : CommandOptions) (read : String → Except FileError String) :
    Except String Theme :=
  match s.theme with
  | none => .ok .standard
  | some path =>
    let refused (reason : String) : Except String Theme :=
      .error ("Error loading theme '" ++ path ++ "': " ++ reason ++ "\n")
    match read path with
    | .error e => refused ("Failed to read theme file: " ++ e.message)
    | .ok text => match Theme.ofText? text with
      | some t => .ok t
      | none => refused "Failed to parse theme TOML"

/-- The template's text, with the name that reports give it. -/
def readSource (s : CommandOptions) (input : Except FileError String)
    (read : String → Except FileError String) : Except String (String × String) :=
  match s.file with
  | some path => (readFile read path).map (path, ·)
  | none =>
    (input.mapError fun e => "Error reading from stdin: " ++ e.message ++ "\n").map (inputName, ·)

/-- The variables of the payload. -/
def readPayload (s : CommandOptions) (read : String → Except FileError String) :
    Except String (List (String × String)) :=
  match s.payload with
  | none => .ok []
  | some path => do
    match Payload.ofText? (← readFile read path) with
    | some p => .ok p.values
    | none => .error ("Error: '" ++ path ++ "' is not a message payload\n")

/-- What is filled into the template; the last value of a variable counts. -/
def bindings (s : CommandOptions) (payload : List (String × String)) : Bindings :=
  ⟨(Table.ofList (payload ++ s.values)).entries, (Table.ofList s.colors).entries⟩

/-- The settings of the preview. -/
def settings (s : CommandOptions) (theme : Theme) : PreviewSettings where
  layout := match s.width with
    | some width => { maxWidth := width }
    | none => {}
  svg := { embed := fun _ => none, outlines := s.debug }
  theme := theme
  appearance := if s.dark then .dark else .light

/-- What is said about an error; a fault of the template is shown in its text. -/
def explain (name text : String) : PreviewError → String
  | .parse f => f.report text.toList name
  | e => "Error: " ++ e.message ++ "\n"

/-- The preview of a template that has been filled in. -/
def preview (σ : Type) [RelationSolver σ] (s : CommandOptions) (settings : PreviewSettings)
    (text : String) : Except PreviewError String :=
  match s.format with
  | .svg =>
    if s.fallback then Preview.renderOrStandIn σ settings text
    else Preview.render σ settings text
  | .layout => (Preview.layOut σ settings text).map fun tree => (layoutToJson tree).toSpreadText

/-- The output, or what is said instead. -/
def produce (σ : Type) [RelationSolver σ] (s : CommandOptions) (input : Except FileError String)
    (read : String → Except FileError String) : Except String String := do
  let theme ← s.readTheme read
  let (name, source) ← s.readSource input read
  let payload ← s.readPayload read
  let settings := s.settings theme
  let text ← (Preview.fill settings (s.bindings payload) source).mapError (explain name source)
  let output ← (s.preview σ settings text).mapError (explain name text)
  return output ++ "\n"

/-- What the command leaves behind. -/
def run (σ : Type) [RelationSolver σ] (s : CommandOptions) (input : Except FileError String)
    (read : String → Except FileError String) : Outcome :=
  match s.produce σ input read with
  | .ok output => ⟨0, output, ""⟩
  | .error text => ⟨1, "", text⟩

end CommandOptions

namespace CommandLine

/-- How the command is used. -/
def usage : String :=
  "Usage: message-card [OPTIONS] [FILE]\n\n" ++
  "  -p, --payload <FILE>    Message payload with variables\n" ++
  "  -v, --var <KEY=VALUE>   Variable, may be repeated\n" ++
  "  -c, --color <KEY=PAIR>  Color variable, may be repeated\n" ++
  "  -t, --theme <FILE>      Theme with default colors\n" ++
  "      --dark              Use the dark side of color pairs\n" ++
  "  -w, --width <POINTS>    Width of the card\n" ++
  "  -f, --format <FORMAT>   svg or layout\n" ++
  "      --fallback          Draw an error body where the template fails\n" ++
  "  -d, --debug             Outline all frames\n" ++
  "  -h, --help              Print help\n"

/-- The outcome of arguments that are rejected. -/
def rejected (e : ArgumentError) : Outcome := ⟨2, "", "error: " ++ e.message ++ "\n"⟩

/-- The outcome of the command with its arguments, its input and the files around it. -/
def run (σ : Type) [RelationSolver σ] (arguments : List String) (input : Except FileError String)
    (read : String → Except FileError String) : Outcome :=
  match CommandOptions.ofArguments arguments with
  | .error e => rejected e
  | .ok s => if s.help then ⟨0, usage, ""⟩ else s.run σ input read

end CommandLine
end MessageCard
