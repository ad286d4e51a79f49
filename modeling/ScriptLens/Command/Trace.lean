import ScriptLens.Text.Basic
import ScriptLens.Text.Space

/-!
The setting that turns log output on and filters it.
-/

namespace ScriptLens.Trace

def trimmed (raw : String) : String := String.ofList (Text.trim raw.toList)

/-- Whether a setting turns logging on: any word but those for no. -/
def isEnabled (raw : String) : Bool :=
  let word := trimmed raw
  word != "" && !Text.listed ["0", "false", "off"] word

/-- The filter that a setting names; words for yes name none. -/
def filter? (raw : String) : Option String :=
  let word := trimmed raw
  if word = "" || Text.listed ["1", "true", "on"] word then none else some word

end ScriptLens.Trace
