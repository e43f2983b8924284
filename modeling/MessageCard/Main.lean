import MessageCard.CommandLine

/-!
# The program

Reads the files that the arguments name, runs the command and writes what it leaves behind.
-/
namespace MessageCard

/-- The text of a file or the reason why there is none. -/
def readText (path : String) : IO (Except FileError String) := do
  try
    let bytes ← IO.FS.readBinFile path
    match String.fromUTF8? bytes with
    | some text => return .ok text
    | none => return .error (.other "stream did not contain valid UTF-8")
  catch
    | .noFileOrDirectory .. => return .error .notFound
    | e => return .error (.other e.toString)

/-- The text of the input. -/
def readInput : IO (Except FileError String) := do
  let bytes ← (← IO.getStdin).readBinToEnd
  match String.fromUTF8? bytes with
  | some text => return .ok text
  | none => return .error (.other "stream did not contain valid UTF-8")

end MessageCard

open MessageCard in
def main (arguments : List String) : IO UInt32 := do
  let outcome ← match CommandOptions.ofArguments arguments with
    | .error e => pure (CommandLine.rejected e)
    | .ok s =>
      if !s.help && s.file.isNone && (← (← IO.getStdin).isTty) then
        pure ⟨2, "", "No template given. Name a file, or give the template as input.\n"⟩
      else
      let files ← s.paths.mapM fun path => do return (path, ← readText path)
      let input ← if s.file.isSome ∨ s.help then pure (.ok "") else readInput
      let read (path : String) : Except FileError String :=
        (Table.findIn path files).getD (.error .notFound)
      pure (CommandLine.run (Linear.Tableau .double) arguments input read)
  IO.print outcome.output
  IO.eprint outcome.errors
  return outcome.code.toUInt32
