import ScriptLens.Command.Run

/-!
The program: it reads the files that its command line names and prints what the command says of
them.
-/

namespace ScriptLens

/-- How to call the program. -/
def usage : String :=
  "Analyze AutoHotkey v2 scripts\n\n" ++
  "Usage: ahk [--config FILE] [--format json|text] COMMAND FILE\n\n" ++
  "Commands:\n" ++
  "  tokenize  Print the token stream\n" ++
  "  parse     Print the syntax tree and any statements recovery dropped\n" ++
  "  lint      Run the linter\n" ++
  "  diagnose  Run the line-level checks and the coding standards [--severity LEVEL] [--no-standards]\n" ++
  "  semantic  Classify tokens for highlighting [--encoded]\n" ++
  "  complete  Completion candidates --line N --character N [--docs INDEX]\n" ++
  "  stats     Code statistics\n" ++
  "  check     Exit with status 1 when the linter reports errors\n"

def version : String := "ahk 0.1.0\n"

/-- What is said about a command line that is not carried out. -/
def UsageError.message : UsageError → String
  | help => usage
  | version => ScriptLens.version
  | nothingGiven => usage
  | missingCommand => "error: a command is missing\n"
  | unknownCommand => "error: the command is not known\n"
  | missingArgument => "error: a required argument is missing\n"
  | unknownArgument => "error: an argument is not known\n"
  | badValue => "error: a value is not valid\n"
  | invalidChoice => "error: a value is missing or none of the possible ones\n"
  | repeatedArgument => "error: an argument is given twice\n"
  | unwantedValue => "error: a value is given to an argument that takes none\n"

/-- Whether the user asked for what is said. -/
def UsageError.isRequest (e : UsageError) : Bool := e = .help || e = .version

/-- The system's number of an error, which may be given as its negative. -/
def errorNumber (code : UInt32) : UInt32 := if code < 0x80000000 then code else -code

def FileError.ofSystem : IO.Error → FileError
  | .noFileOrDirectory .. => .notFound
  | .inappropriateType file code details =>
    match errorNumber code with
    | 20 => .notADirectory
    | 21 => .isDirectory
    | _ => .other (toString (IO.Error.inappropriateType file code details))
  | .invalidArgument file code details =>
    match errorNumber code with
    | 36 => .nameTooLong
    | _ => .other (toString (IO.Error.invalidArgument file code details))
  | e => .other (toString e)

/-- The content of each path, or why there is none. -/
def readAll (paths : List String) : IO (List (String × Except FileError ByteArray)) :=
  paths.mapM fun (path : String) => do
    match ← (IO.FS.readBinFile path).toBaseIO with
    | .ok bytes => return (path, .ok bytes)
    | .error e => return (path, .error (.ofSystem e))

/-- What is said where a number leaves its word. -/
def overflow : String := "attempt to compute a number that does not fit its word"

/-- Carries out a command line that was understood. -/
def perform (i : Invocation) : IO UInt32 := do
  let files ← readAll i.paths
  let read (path : String) := (files.lookup path).getD (.error .notFound)
  match i.run read with
  | some (.ok outcome) =>
    IO.print outcome.output
    return if outcome.success then 0 else 1
  | some (.error e) =>
    IO.eprintln ("Error: " ++ e.message)
    return 1
  | none =>
    IO.eprintln overflow
    return 101

end ScriptLens

def main (args : List String) : IO UInt32 := do
  match ScriptLens.Arguments.parse args with
  | .ok invocation => ScriptLens.perform invocation
  | .error e =>
    if e.isRequest then
      IO.print e.message
      return 0
    else
      IO.eprint e.message
      return 2
