import ScriptLens.Token.Basic

/-!
What a function declaration looks like from its name on: parameters in parentheses, then an opening
brace.
-/

namespace ScriptLens.Token

/-- The tokens behind the parenthesis that closes `depth` open ones. A brace or the end comes first
otherwise. -/
def pastParens : Nat → List Token → Option (List Token)
  | _, [] => none
  | depth, t :: rest =>
    match t.kind with
    | .lParen => pastParens (depth + 1) rest
    | .rParen => if depth ≤ 1 then some rest else pastParens (depth - 1) rest
    | .lBrace | .rBrace | .eof => none
    | _ => pastParens depth rest

/-- Whether `name(…)` stands at the head of the tokens with `{` behind it, up to passed-over
kinds. -/
def headsDeclaration (passed : Kind → Bool) : List Token → Bool
  | name :: paren :: rest =>
    name.kind = .identifier && paren.kind = .lParen &&
      match pastParens 1 rest with
      | none => false
      | some after =>
        match after.dropWhile fun t => passed t.kind with
        | [] => false
        | t :: _ => t.kind = .lBrace
  | _ => false

end ScriptLens.Token
