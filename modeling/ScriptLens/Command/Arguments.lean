import ScriptLens.Command.Files

/-!
The command line: a command with its file and options, and two options that may stand before or
behind the command. Words are taken from left to right; a value is checked when the next word is
taken.
-/

namespace ScriptLens

inductive OutputFormat where
  | json | text
deriving DecidableEq, Repr

/-- What to do with a script. -/
inductive Command where
  | tokenize
  | parse
  | lint
  | diagnose (severity : Option String) (noStandards : Bool)
  | semantic (encoded : Bool)
  | complete (line character : Nat) (docs : Option String)
  | stats
  | check
deriving DecidableEq, Repr

/-- A command line that was understood. -/
structure Invocation where
  command : Command
  file : String
  config : Option String
  format : OutputFormat
deriving DecidableEq, Repr

/-- The files that an invocation may read. -/
def Invocation.paths (i : Invocation) : List String :=
  let docs := match i.command with
    | .complete _ _ docs => docs.toList
    | _ => []
  i.config.toList ++ i.file :: docs

/-- Why a command line is not carried out. -/
inductive UsageError where
  | help
  | version
  | nothingGiven
  | missingCommand
  | unknownCommand
  | missingArgument
  | unknownArgument
  | badValue
  | invalidChoice
  | repeatedArgument
  | unwantedValue
deriving DecidableEq, Repr

namespace Arguments

/-- The names of commands. -/
inductive Verb where
  | tokenize | parse | lint | diagnose | semantic | complete | stats | check
deriving DecidableEq, Repr

def Verb.ofName? : String → Option Verb
  | "tokenize" => some tokenize
  | "parse" => some parse
  | "lint" => some lint
  | "diagnose" => some diagnose
  | "semantic" => some semantic
  | "complete" => some complete
  | "stats" => some stats
  | "check" => some check
  | _ => none

/-- What a word of the command line can give a value to. -/
inductive Slot where
  | config | format | severity | noStandards | encoded | line | character | docs | file
deriving DecidableEq, Repr

/-- What an option does. -/
inductive Effect where
  | takesValue (slot : Slot)
  | sets (slot : Slot)
  | showsHelp
  | showsVersion

/-- The options that are known before the command, or behind it. -/
def option? : Option Verb → String → Option Effect
  | _, "config" => some (.takesValue .config)
  | _, "format" => some (.takesValue .format)
  | _, "help" => some .showsHelp
  | none, "version" => some .showsVersion
  | some .diagnose, "severity" => some (.takesValue .severity)
  | some .diagnose, "no-standards" => some (.sets .noStandards)
  | some .semantic, "encoded" => some (.sets .encoded)
  | some .complete, "line" => some (.takesValue .line)
  | some .complete, "character" => some (.takesValue .character)
  | some .complete, "docs" => some (.takesValue .docs)
  | _, _ => none

/-- The options that are known by one letter. -/
def letter? : Option Verb → Char → Option Effect
  | _, 'h' => some .showsHelp
  | none, 'V' => some .showsVersion
  | _, _ => none

/-- A number of 32 bits, with or without a sign. -/
def number? (text : String) : Option Nat :=
  let digits (ds : List Char) : Option Nat :=
    if !ds.isEmpty && ds.all Char.isDigit then (String.ofList ds).toNat? else none
  match text.toList with
  | '+' :: rest => (digits rest).filter (· < Nat.pow 2 32)
  | '-' :: rest => (digits rest).filter (· = 0)
  | rest => (digits rest).filter (· < Nat.pow 2 32)

def format? : String → Option OutputFormat
  | "json" => some .json
  | "text" => some .text
  | _ => none

/-- Checks a value for its slot. -/
def checkValue (slot : Slot) (value : String) : Except UsageError Unit :=
  match slot with
  | .config | .docs | .file => if Path.climbs value then .error .badValue else .ok ()
  | .format => if (format? value).isSome then .ok () else .error .invalidChoice
  | .line | .character => if (number? value).isSome then .ok () else .error .badValue
  | .severity | .noStandards | .encoded => .ok ()

/-- What was read so far: checked values, and a slot whose value waits to be given or checked. -/
structure Reading where
  values : List (Slot × String) := []
  pending : Option (Slot × Option String) := none

namespace Reading

def get? (r : Reading) (slot : Slot) : Option String := (r.values.find? (·.1 = slot)).map (·.2)

/-- Checks what waits. -/
def settle (r : Reading) : Except UsageError Reading :=
  match r.pending with
  | none => .ok r
  | some (_, none) => .error .invalidChoice
  | some (slot, some value) =>
    if (r.get? slot).isSome then .error .repeatedArgument
    else do
      checkValue slot value
      return ⟨(slot, value) :: r.values, none⟩

/-- Whether an option waits for its value. -/
def awaits (r : Reading) : Bool :=
  match r.pending with
  | some (_, none) => true
  | _ => false

/-- Whether a slot was given, checked or not. -/
def mentions (r : Reading) (slot : Slot) : Bool :=
  (r.get? slot).isSome || r.pending.any (·.1 = slot)

/-- Takes an option with the value written to it, if any. -/
def takeOption (r : Reading) (effect : Effect) (attached : Option String) :
    Except UsageError Reading :=
  match effect, attached with
  | .takesValue slot, some value => do
    let r ← r.settle
    settle { r with pending := some (slot, some value) }
  | .takesValue slot, none => do
    let r ← r.settle
    return { r with pending := some (slot, none) }
  | _, some _ => .error .unwantedValue
  | .sets slot, none => do
    let r ← r.settle
    settle { r with pending := some (slot, some "") }
  | .showsHelp, none => do
    let _ ← r.settle
    .error .help
  | .showsVersion, none => do
    let _ ← r.settle
    .error .version

end Reading

/-- A word split at its first equals sign. -/
def splitAttached (word : List Char) : String × Option String :=
  match word.dropWhile (· != '=') with
  | [] => (String.ofList word, none)
  | _ :: value => (String.ofList (word.takeWhile (· != '=')), some (String.ofList value))

/-- Takes a word that is no option: a file behind a command, and nothing else. -/
def takeWord (verb : Option Verb) (r : Reading) (word : String) : Except UsageError Reading :=
  match verb with
  | none => .error .unknownCommand
  | some _ =>
    if r.mentions .file then .error .unknownArgument
    else do
      let r ← r.settle
      return { r with pending := some (.file, some word) }

/-- What words lead to: more reading, or a command with the words behind it. -/
inductive Progress where
  | done (r : Reading)
  | command (r : Reading) (verb : Verb) (rest : List String)

/-- Whether a word is a command before one was given. -/
def isCommand (word : String) : Bool := word = "help" || (Verb.ofName? word).isSome

/-- Takes words, of which behind `--` none is an option. -/
def takeWords (verb : Option Verb) (plain : Bool) (r : Reading) :
    List String → Except UsageError Progress
  | [] => .ok (.done r)
  | word :: rest =>
    if plain then
      if verb.isNone && isCommand word then .error .unknownArgument
      else do takeWords verb true (← takeWord verb r word) rest
    else if verb.isNone && !r.awaits && word = "help" then
      .error (if rest.all isCommand then .help else .unknownCommand)
    else match if verb.isNone && !r.awaits then Verb.ofName? word else none with
      | some v => .ok (.command r v rest)
      | none =>
        match word.toList with
        | ['-', '-'] => takeWords verb true r rest
        | '-' :: '-' :: name => do
          let (name, attached) := splitAttached name
          match option? verb name with
          | none => .error .unknownArgument
          | some effect => takeWords verb false (← r.takeOption effect attached) rest
        | '-' :: letter :: _ => do
          match letter? verb letter with
          | none => .error .unknownArgument
          | some effect => takeWords verb false (← r.takeOption effect none) rest
        | _ =>
          match r.pending with
          | some (slot, none) =>
              takeWords verb false { r with pending := some (slot, some word) } rest
          | _ => do takeWords verb false (← takeWord verb r word) rest

/-- The command of a verb with its options, if none is missing. -/
def command? (verb : Verb) (r : Reading) : Option Command :=
  match verb with
  | .tokenize => some .tokenize
  | .parse => some .parse
  | .lint => some .lint
  | .diagnose => some (.diagnose (r.get? .severity) (r.get? .noStandards).isSome)
  | .semantic => some (.semantic (r.get? .encoded).isSome)
  | .complete => do
    let line ← (r.get? .line).bind number?
    let character ← (r.get? .character).bind number?
    return .complete line character (r.get? .docs)
  | .stats => some .stats
  | .check => some .check

/-- The invocation of a verb. What stands behind the command counts before what stands before it. -/
def invocation? (verb : Verb) (outer inner : Reading) : Option Invocation := do
  let file ← inner.get? .file
  let command ← command? verb inner
  let shared (slot : Slot) := (inner.get? slot).or (outer.get? slot)
  return ⟨command, file, shared .config, ((shared .format).bind format?).getD .json⟩

/-- Understands the words behind the program's name. -/
def parse (words : List String) : Except UsageError Invocation := do
  match ← takeWords none false {} words with
  | .done r =>
    let r ← r.settle
    if r.values.isEmpty then .error .nothingGiven else .error .missingCommand
  | .command outer verb rest =>
    match ← takeWords (some verb) false {} rest with
    | .command .. => .error .unknownCommand
    | .done inner =>
      let inner ← inner.settle
      if (invocation? verb {} inner).isNone then .error .missingArgument
      else
        let outer ← outer.settle
        match invocation? verb outer inner with
        | some i => .ok i
        | none => .error .missingArgument

end Arguments

end ScriptLens
