import ScriptLens.Diagnostic
import ScriptLens.Token.Basic

/-!
Brackets that do not pair up. Braces, parentheses and square brackets are matched apart from each
other.
-/

namespace ScriptLens.Lint

/-- A kind of bracket. -/
inductive Bracket where
  | brace | paren | square
deriving DecidableEq, Repr

namespace Bracket

def opening : Bracket → Kind
  | brace => .lBrace
  | paren => .lParen
  | square => .lBracket

def closing : Bracket → Kind
  | brace => .rBrace
  | paren => .rParen
  | square => .rBracket

def unmatched (b : Bracket) (t : Token) : Diagnostic :=
  match b with
  | brace => .lint .error .unmatchedBrace "Unmatched closing brace '\x7d'" t.span
  | paren => .lint .error .unmatchedParen "Unmatched closing parenthesis ')'" t.span
  | square => .lint .error .unmatchedBracket "Unmatched closing bracket ']'" t.span

def unclosed (b : Bracket) (t : Token) : Diagnostic :=
  .lint .error .unclosedBracket
    (match b with
      | brace => "Unclosed brace '\x7b'"
      | paren => "Unclosed parenthesis '('"
      | square => "Unclosed bracket '['") t.span

/-- Matches the brackets of one kind: the closing tokens without a partner, and the opening ones,
innermost first. `stack` holds the openings that wait. -/
def pair (b : Bracket) (stack : List Token) : List Token → List Token × List Token
  | [] => ([], stack)
  | t :: rest =>
    if t.kind = b.opening then pair b (t :: stack) rest
    else if t.kind = b.closing then
      match stack with
      | [] => let (closers, openers) := pair b [] rest; (t :: closers, openers)
      | _ :: stack => pair b stack rest
    else pair b stack rest

section

variable {b : Bracket} {t : Token} {rest stack : List Token}

theorem pair_opening (h : t.kind = b.opening) :
    b.pair stack (t :: rest) = b.pair (t :: stack) rest := by
  rw [pair.eq_def]
  exact if_pos h

theorem pair_closing_unmatched (h : t.kind = b.closing) :
    b.pair [] (t :: rest) = (t :: (b.pair [] rest).1, (b.pair [] rest).2) := by
  have other : t.kind ≠ b.opening := by
    rw [h]
    cases b <;> decide
  rw [pair.eq_def]
  dsimp only
  rw [if_neg other, if_pos h]

theorem pair_closing {first : Token} (h : t.kind = b.closing) :
    b.pair (first :: stack) (t :: rest) = b.pair stack rest := by
  have other : t.kind ≠ b.opening := by
    rw [h]
    cases b <;> decide
  rw [pair.eq_def]
  dsimp only
  rw [if_neg other, if_pos h]

theorem pair_other (opens : t.kind ≠ b.opening) (closes : t.kind ≠ b.closing) :
    b.pair stack (t :: rest) = b.pair stack rest := by
  rw [pair.eq_def]
  dsimp only
  rw [if_neg opens, if_neg closes]

end

/-- The findings about one kind of bracket. -/
def findings (b : Bracket) (tokens : List Token) : List Diagnostic :=
  let (closers, openers) := b.pair [] tokens
  closers.map b.unmatched ++ openers.reverse.map b.unclosed

theorem pair_of_findings {b : Bracket} {tokens : List Token} (none : b.findings tokens = []) :
    b.pair [] tokens = ([], []) := by
  rw [findings] at none
  obtain ⟨closers, openers⟩ := List.append_eq_nil_iff.mp none
  exact Prod.ext (List.map_eq_nil_iff.mp closers)
    (List.reverse_eq_nil_iff.mp (List.map_eq_nil_iff.mp openers))

end Bracket

/-- All findings about brackets, in the order of the script. -/
def brackets (tokens : List Token) : List Diagnostic :=
  Diagnostic.inOrder
    ([Bracket.brace, .paren, .square].flatMap fun b => b.findings tokens)

end ScriptLens.Lint
