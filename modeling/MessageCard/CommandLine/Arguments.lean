import MessageCard.Text.Decimal

/-!
# Arguments of the command

The arguments are taken one after the other. An option has a long name and mostly a letter; letters
can be joined behind one dash, and a value may follow at once, after an equals sign, or as the next
argument, which then must not look like an option. All but the bindings are given once at most.
After two dashes everything is a file, of which there is at most one.
-/
namespace MessageCard

/-- What is written to the output. -/
inductive OutputFormat where
  | svg
  | layout
  deriving DecidableEq

/-- An option of the command. -/
inductive CommandOption where
  | payload
  | binding
  | color
  | theme
  | dark
  | width
  | format
  | fallback
  | debug
  | help
  deriving DecidableEq

namespace CommandOption

def ofLetter? : Char → Option CommandOption
  | 'p' => some .payload
  | 'v' => some .binding
  | 'c' => some .color
  | 't' => some .theme
  | 'w' => some .width
  | 'f' => some .format
  | 'd' => some .debug
  | 'h' => some .help
  | _ => none

def name : CommandOption → String
  | .payload => "payload"
  | .binding => "var"
  | .color => "color"
  | .theme => "theme"
  | .dark => "dark"
  | .width => "width"
  | .format => "format"
  | .fallback => "fallback"
  | .debug => "debug"
  | .help => "help"

def all : List CommandOption :=
  [.payload, .binding, .color, .theme, .dark, .width, .format, .fallback, .debug, .help]

def ofName? (name : String) : Option CommandOption := all.find? (·.name = name)

def takesValue : CommandOption → Bool
  | .dark | .fallback | .debug | .help => false
  | _ => true

/-- Whether an option may be given more than once. -/
def isRepeatable : CommandOption → Bool
  | .binding | .color => true
  | _ => false

end CommandOption

/-- Why arguments are rejected. -/
inductive ArgumentError where
  | unknown (argument : String)
  | noValue (o : CommandOption)
  | needlessValue (o : CommandOption)
  | badValue (o : CommandOption) (value : String)
  | repeated (o : CommandOption)
  | secondFile (path : String)
  | emptyFile
  deriving DecidableEq

def ArgumentError.message : ArgumentError → String
  | .unknown argument => "unexpected argument '" ++ argument ++ "'"
  | .noValue o => "a value is required for '--" ++ o.name ++ "'"
  | .needlessValue o => "unexpected value for '--" ++ o.name ++ "'"
  | .badValue o value => "invalid value '" ++ value ++ "' for '--" ++ o.name ++ "'"
  | .repeated o => "the argument '--" ++ o.name ++ "' cannot be used multiple times"
  | .secondFile path => "unexpected argument '" ++ path ++ "'"
  | .emptyFile => "a value is required for the file"

/-- What the arguments ask for. -/
structure CommandOptions where
  file : Option String := none
  payload : Option String := none
  theme : Option String := none
  /-- Variables with their values, in the order in which they were given. -/
  values : List (String × String) := []
  /-- Color variables with their pairs, in the order in which they were given. -/
  colors : List (String × String) := []
  width : Option Binary64 := none
  format : OutputFormat := .svg
  dark : Bool := false
  fallback : Bool := false
  debug : Bool := false
  help : Bool := false
  /-- The options that were given. -/
  given : List CommandOption := []

/-- A key and a value with an equals sign between them. -/
def splitBinding? (text : String) : Option (String × String) :=
  match text.toList.dropWhile (· ≠ '=') with
  | [] => none
  | _ :: value => some (.ofList (text.toList.takeWhile (· ≠ '=')), .ofList value)

namespace CommandOptions

/-- The options with the value of one more. -/
def withValue (s : CommandOptions) (o : CommandOption) (value : String) :
    Except ArgumentError CommandOptions :=
  let path (s : CommandOptions) : Except ArgumentError CommandOptions :=
    if value = "" then .error (.badValue o value) else .ok s
  let some? {α : Type} (x : Option α) (f : α → CommandOptions) :
      Except ArgumentError CommandOptions :=
    match x with
    | some a => .ok (f a)
    | none => .error (.badValue o value)
  match o with
  | .payload => path { s with payload := some value }
  | .theme => path { s with theme := some value }
  | .binding => some? (splitBinding? value) fun b => { s with values := s.values ++ [b] }
  | .color => some? (splitBinding? value) fun b => { s with colors := s.colors ++ [b] }
  | .width =>
    some? ((Decimal.readReal? value.toList).bind fun
      | .finite a => some a
      | .notFinite => none) fun a => { s with width := some a }
  | .format =>
    some? (match value with
      | "svg" => some .svg
      | "layout" => some .layout
      | _ => none) fun f => { s with format := f }
  | .dark => .ok { s with dark := true }
  | .fallback => .ok { s with fallback := true }
  | .debug => .ok { s with debug := true }
  | .help => .ok { s with help := true }

/-- The options with one more, which must not have been given before unless it is repeatable. -/
def set (s : CommandOptions) (o : CommandOption) (value : String) :
    Except ArgumentError CommandOptions :=
  if s.given.contains o && !o.isRepeatable then .error (.repeated o)
  else { s with given := o :: s.given }.withValue o value

/-- The options with the file to read. -/
def setFile (s : CommandOptions) (path : String) : Except ArgumentError CommandOptions :=
  if path = "" then .error .emptyFile
  else match s.file with
    | some _ => .error (.secondFile path)
    | none => .ok { s with file := some path }

end CommandOptions

/-- The arguments taken so far. -/
structure ArgumentScan where
  options : CommandOptions
  /-- An option whose value is the next argument. -/
  pending : Option CommandOption
  /-- Whether all that follows are files. -/
  filesOnly : Bool

namespace ArgumentScan

def start : ArgumentScan := ⟨{}, none, false⟩

/-- Whether an argument cannot be a value or a file. -/
def looksLikeOption (argument : List Char) : Bool :=
  match argument with
  | '-' :: _ :: _ => true
  | _ => false

/-- Letters of options behind one dash. The option that takes a value has the rest for it, or else
the next argument. -/
def letters (s : ArgumentScan) (argument : String) : List Char → Except ArgumentError ArgumentScan
  | [] => .ok s
  | c :: rest =>
    match CommandOption.ofLetter? c with
    | none => .error (.unknown argument)
    | some o =>
      if o.takesValue then
        match rest with
        | [] => .ok { s with pending := some o }
        | '=' :: value => (s.options.set o (.ofList value)).map fun options => { s with options }
        | value => (s.options.set o (.ofList value)).map fun options => { s with options }
      else match s.options.set o "" with
        | .error e => .error e
        | .ok options =>
          if o = .help then .ok { s with options } else letters { s with options } argument rest

/-- An option by its long name. -/
def longName (s : ArgumentScan) (argument : String) (text : List Char) :
    Except ArgumentError ArgumentScan :=
  let value := text.dropWhile (· ≠ '=')
  match CommandOption.ofName? (.ofList (text.takeWhile (· ≠ '='))), value with
  | none, _ => .error (.unknown argument)
  | some o, [] =>
    if o.takesValue then .ok { s with pending := some o }
    else (s.options.set o "").map fun options => { s with options }
  | some o, _ :: value =>
    if o.takesValue then (s.options.set o (.ofList value)).map fun options => { s with options }
    else .error (.needlessValue o)

/-- One more argument. Nothing counts any more once help was asked for. -/
def step (s : ArgumentScan) (argument : String) : Except ArgumentError ArgumentScan :=
  let file := (s.options.setFile argument).map fun options => { s with options }
  if s.options.help then .ok s
  else if s.filesOnly then file
  else match s.pending with
    | some o =>
      if looksLikeOption argument.toList then .error (.noValue o)
      else (s.options.set o argument).map fun options => { s with options, pending := none }
    | none =>
      match argument.toList with
      | ['-', '-'] => .ok { s with filesOnly := true }
      | '-' :: '-' :: text => s.longName argument text
      | '-' :: c :: rest => s.letters argument (c :: rest)
      | _ => file

/-- What all arguments ask for. -/
def finish (s : ArgumentScan) : Except ArgumentError CommandOptions :=
  match s.pending with
  | some o => .error (.noValue o)
  | none => .ok s.options

end ArgumentScan

/-- What the arguments ask for. -/
def CommandOptions.ofArguments (arguments : List String) : Except ArgumentError CommandOptions :=
  match arguments.foldlM ArgumentScan.step .start with
  | .ok s => s.finish
  | .error e => .error e

end MessageCard
