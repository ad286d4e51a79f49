import ScriptLens.Proofs.Lockstep.Statements
import ScriptLens.Proofs.Padding.Tokens
import ScriptLens.Proofs.Print.Trees

/-!
Rules on both sides of a padding keep in step. A rule that starts at the same token on both sides
gives the same tree up to places and ends at the same token, or fails with the same message. Where a
statement ends in recovery just behind a line break, the parsers may stand apart until line breaks
are passed over.
-/

namespace ScriptLens

open ParseM ScriptLens.Parser

namespace Expr

@[simp] theorem isTarget_bare (e : Expr) : e.bare.isTarget = e.isTarget := by
  cases e <;> rfl

end Expr

namespace Parser

/-- Both sides of a padding: texts and messages are the same, and places are not compared. -/
def paddedSides : Sides where
  Here := InStep
  Late := Lagging
  Tokens a b := b.text = a.text
  Spans _ _ := True
  Lines a b := b = a
  Fails e e' s t := e'.message = e.message ∧ InStep s t

theorem sameLevel_together
    (R : List Char → List Char → List Token → List Token → Prop) : SameLevel (Together R) where
  depth h := h.depth
  atDepth _ h := ⟨h.ahead, rfl, h.closed, h.final, h.skipped⟩

theorem paddedSides_levelled : Lockstep.Levelled paddedSides where
  late := InStep.lagging
  closed late := ⟨late.closed, late.closed'⟩
  skipNewlines := InStep.skipNewlines
  kind := InStep.peek_kind
  atEnd := InStep.atEnd
  atFunction := InStep.atFunction
  token here solid := InStep.peek_text here fun feed => by
    rw [feed] at solid
    cases solid
  advance here solid := InStep.advance here fun feed => by
    rw [feed] at solid
    cases solid
  last _ _ := trivial
  lineText := InStep.lineText
  skipLine := InStep.skipLine
  spanFrom _ _ := trivial
  span _ := trivial
  text same _ := same
  refuse cause here := by
    refine ⟨?_, here⟩
    rw [ParseError.message, ParseError.message, InStep.describe here]
  here := sameLevel_together _
  behind := sameLevel_together _
  fails e e' := ⟨fun h => h.2.depth, fun d h => ⟨h.1, (sameLevel_together _).atDepth d h.2⟩⟩
  begin := InStep.begin
  recover first first' h := InStep.recover h.2 first first' h.1

/-- Trees that are the same up to places. -/
def bareParts : Parts where
  Exprs a b := b.bare = a.bare
  Chains a b := Stmt.bareChain b = Stmt.bareChain a
  Stmts a b := b.bare = a.bare

theorem exprShape_bare : ExprShape paddedSides bareParts.Exprs where
  cover _ _ := trivial
  span _ := trivial
  isTarget {e e'} (same : e'.bare = e.bare) := by
    rw [← Expr.isTarget_bare e', same, Expr.isTarget_bare]
  assignment target value _ := by
    simp only [bareParts, Expr.bare] at *
    rw [target, value]
  binary left right _ := by
    simp only [bareParts, Expr.bare] at *
    rw [left, right]
  unary argument _ := by
    simp only [bareParts, Expr.bare] at *
    rw [argument]
  call callee args _ := by
    have listed := map_eq_of_forall₂ args
    simp only [bareParts, Expr.bare, Expr.allBare_eq] at *
    rw [callee, listed]
  member object _ := by
    simp only [bareParts, Expr.bare] at *
    rw [object]
  literal {a b} value (text : b.text = a.text) := by
    simp only [bareParts, literal, Expr.bare, text]
  name _ := rfl

theorem bare_of_param {p q : Param} (h : bareParts.Param paddedSides p q) : q.bare = p.bare := by
  have given := map_eq_of_rel h.default
  rw [Param.bare, Param.bare, h.name, h.byRef, h.variadic, given]

theorem bare_of_alternate {rest rest' : Alternate} (h : bareParts.Alternate rest rest') :
    Stmt.bareAlternate rest' = Stmt.bareAlternate rest := by
  cases h with
  | absent => rfl
  | elseIf next =>
      rw [Stmt.bareAlternate, Stmt.bareAlternate]
      exact congrArg Alternate.elseIf next
  | otherwise body =>
      rw [Stmt.bareAlternate, Stmt.bareAlternate, Stmt.allBare_eq, Stmt.allBare_eq,
        map_eq_of_forall₂ body]

theorem bare_of_chain {c c' : IfChain} (h : bareParts.Chain paddedSides c c') :
    Stmt.bareChain c' = Stmt.bareChain c := by
  cases h with
  | @mk test test' _ _ _ _ _ _ tested body rest _ =>
      have tests : test'.bare = test.bare := tested
      rw [Stmt.bareChain, Stmt.bareChain, Stmt.allBare_eq, Stmt.allBare_eq, tests,
        map_eq_of_forall₂ body, bare_of_alternate rest]

theorem bare_of_layer {a b : Stmt} (h : bareParts.Layer paddedSides a b) : b.bare = a.bare := by
  have exprs {e e' : Expr} (same : bareParts.Exprs e e') : e'.bare = e.bare := same
  have bodies {body body' : List Stmt} (same : List.Forall₂ bareParts.Stmts body body') :
      Stmt.allBare body' = Stmt.allBare body := by
    rw [Stmt.allBare_eq, Stmt.allBare_eq, map_eq_of_forall₂ same]
  cases h with
  | ifs chain => rw [Stmt.bare, Stmt.bare, bare_of_chain chain]
  | whileLoop test body _ => rw [Stmt.bare, Stmt.bare, exprs test, bodies body]
  | forLoop iterable body _ => rw [Stmt.bare, Stmt.bare, exprs iterable, bodies body]
  | loop count body _ => rw [Stmt.bare, Stmt.bare, map_eq_of_rel count, bodies body]
  | classDecl _ body _ => rw [Stmt.bare, Stmt.bare, bodies body]
  | function _ params body _ =>
      have listed := map_eq_of_forall₂ (params.imp fun _ _ => bare_of_param)
      rw [Stmt.bare, Stmt.bare, listed, bodies body]
  | returns argument _ => rw [Stmt.bare, Stmt.bare, map_eq_of_rel argument]
  | breaks _ => rw [Stmt.bare, Stmt.bare]
  | continues _ => rw [Stmt.bare, Stmt.bare]
  | hotkey body _ => rw [Stmt.bare, Stmt.bare, bodies body]
  | @directive _ line line' _ _ text _ =>
      have lines : line' = line := text
      rw [Stmt.bare, Stmt.bare, lines]
  | expression same => rw [Stmt.bare, Stmt.bare, exprs same]

theorem treeShape_bare : TreeShape paddedSides bareParts :=
  ⟨exprShape_bare, bare_of_chain, bare_of_layer⟩

end Parser

end ScriptLens
