import ScriptLens.Proofs.Lockstep.Rules

/-!
Expressions on two sides. Where nesting levels are counted alike, the rules for expressions keep in
step, and the trees that they give are in any relation that nodes have if their parts have it.
-/

namespace ScriptLens

open ParseM ScriptLens.Parser

namespace Parser

/-- A relation of states that knows nothing of their levels but that they are the same. -/
structure SameLevel (W : State → State → Prop) : Prop where
  depth {s t : State} : W s t → t.depth = s.depth
  atDepth {s t : State} (d : Nat) : W s t → W { s with depth := d } { t with depth := d }

/-- Two parsers that keep in step on the same nesting level, where recovery leaves them too. -/
structure Lockstep.Levelled (S : Sides) : Prop extends Lockstep S where
  here : SameLevel S.Here
  behind : SameLevel S.Late
  fails (e e' : ParseError) : SameLevel (S.Fails e e')
  begin {s t : State} : S.Here s t → S.Here s.begin t.begin
  recover {s t : State} {e e' : ParseError} (first first' : Token) :
    S.Fails e e' s t → S.Late (s.recover first e) (t.recover first' e')

/-- A relation of expressions that nodes have if their parts have it. -/
structure ExprShape (S : Sides) (E : Expr → Expr → Prop) : Prop where
  cover {a b a' b' : Span} : S.Spans a a' → S.Spans b b' → S.Spans (a.cover b) (a'.cover b')
  span {e e' : Expr} : E e e' → S.Spans e.span e'.span
  isTarget {e e' : Expr} : E e e' → e'.isTarget = e.isTarget
  assignment {target target' value value' : Expr} {s s' : Span} : E target target' →
    E value value' → S.Spans s s' → E (.assignment target value s) (.assignment target' value' s')
  binary {operator : BinaryOp} {left left' right right' : Expr} {s s' : Span} : E left left' →
    E right right' → S.Spans s s' → E (.binary operator left right s)
      (.binary operator left' right' s')
  unary {operator : UnaryOp} {argument argument' : Expr} {s s' : Span} : E argument argument' →
    S.Spans s s' → E (.unary operator argument s) (.unary operator argument' s')
  call {callee callee' : Expr} {args args' : List Expr} {s s' : Span} : E callee callee' →
    List.Forall₂ E args args' → S.Spans s s' → E (.call callee args s) (.call callee' args' s')
  member {object object' : Expr} {property : String} {s s' : Span} : E object object' →
    S.Spans s s' → E (.member object property s) (.member object' property s')
  literal {a b : Token} (value : String → Literal) : S.Tokens a b →
    E (literal a (value a.text)) (literal b (value b.text))
  name {n : String} {builtin : Bool} {s s' : Span} : S.Spans s s' →
    E (.name n builtin s) (.name n builtin s')

variable {α β γ δ : Type} {S : Sides} {s t : State}

namespace Lockstep.Levelled

open Sides

variable (L : Lockstep.Levelled S)
include L

theorem gives_nested {W : State → State → Prop} (level : SameLevel W) {R : α → β → Prop}
    {m : ParseM α} {m' : ParseM β} (here : S.Here s t)
    (inside : S.Gives (fun a b u v => R a b ∧ W u v) (m.run { s with depth := s.depth + 1 })
      (m'.run { t with depth := t.depth + 1 })) :
    S.Gives (fun a b u v => R a b ∧ W u v) ((nested m).run s) ((nested m').run t) := by
  have depth := L.here.depth here
  rw [run_nested, run_nested, depth]
  split
  · exact .failed (L.refuse .nestedTooDeeply here)
  · rw [depth] at inside
    generalize m.run { s with depth := s.depth + 1 } = one at inside
    generalize m'.run { t with depth := s.depth + 1 } = two at inside
    cases inside with
    | @ok a b u v result =>
        rw [level.depth result.2]
        exact .ok ⟨result.1, level.atDepth _ result.2⟩
    | @failed e e' u v errors =>
        rw [(L.fails e e').depth errors]
        exact .failed ((L.fails e e').atDepth _ errors)

theorem alike_nested {W : State → State → Prop} (level : SameLevel W) {R : α → β → Prop}
    {m : ParseM α} {m' : ParseM β} (h : S.Alike (fun a b u v => R a b ∧ W u v) m m') :
    S.Alike (fun a b u v => R a b ∧ W u v) (nested m) (nested m') := by
  intro s t here
  refine L.gives_nested level here (h _ _ ?_)
  rw [L.here.depth here]
  exact L.here.atDepth _ here

theorem alike_chain {R : α → β → Prop} {m : ParseM α} {m' : ParseM β}
    (h : S.Alike (S.Both R) m m') : S.Alike (S.Both R) (chain m) (chain m') := by
  intro s t here
  have inside := h s t here
  rw [run_chain, run_chain, L.here.depth here]
  generalize m.run s = one at inside
  generalize m'.run t = two at inside
  cases inside with
  | ok result => exact .ok ⟨result.1, L.here.atDepth _ result.2⟩
  | failed errors => exact .failed ((L.fails _ _).atDepth _ errors)

theorem alike_link {Q : γ → δ → State → State → Prop} {n : PUnit → ParseM γ} {n' : PUnit → ParseM δ}
    (next : S.Alike Q (n ⟨⟩) (n' ⟨⟩)) : S.Alike Q (link >>= n) (link >>= n') := by
  intro s t here
  have depth := L.here.depth here
  rw [run_bind, run_bind, run_link, run_link, depth]
  by_cases deep : maxDepth ≤ s.depth
  · rw [if_pos deep, if_pos deep]
    exact .failed (L.refuse _ here)
  · rw [if_neg deep, if_neg deep]
    exact next _ _ (L.here.atDepth _ here)

/-- A statement that fails is dropped on both sides. -/
theorem alike_recovered {inner : Level} {R : Stmt → Stmt → Prop}
    (h : S.Alike (S.Trailing R) inner.statement inner.statement) :
    S.Alike (S.Trailing (Option.Rel R)) (recovered inner) (recovered inner) := by
  intro s t here
  have inside := L.alike_nested L.behind h _ _ (L.begin here)
  rw [run_recovered, run_recovered]
  generalize (nested inner.statement).run s.begin = one at inside
  generalize (nested inner.statement).run t.begin = two at inside
  cases inside with
  | ok result => exact .ok ⟨.some result.1, result.2⟩
  | failed errors => exact .ok ⟨.none, L.recover _ _ errors⟩

section Expressions

variable {E : Expr → Expr → Prop} (shape : ExprShape S E) {inner : Level} (returns : inner.Returns)
  (assignment : S.Alike (S.Both E) inner.assignment inner.assignment)

include assignment in
theorem expression_alike : S.Alike (S.Both E) (expression inner) (expression inner) :=
  L.alike_nested L.here assignment

include shape

include assignment in
theorem primary_alike : S.Alike (S.Both E) (primary inner) (primary inner) := by
  apply alike_get
  intro s t here
  -- a token of one kind makes an expression of its own
  have single {kind : Kind} (same : s.peek.kind = kind) (solid : kind.isSolid = true) {e e' : Expr}
      (alike : S.Tokens s.peek t.peek → E e e') : S.Gives (S.Both E)
      ((ParseM.advance >>= fun _ => pure e).run s) ((ParseM.advance >>= fun _ => pure e').run t) :=
    (L.run_advance here same solid).andThen fun _ _ _ =>
      alike_pure (alike (L.token here (same ▸ solid)))
  have named {kind : Kind} (same : s.peek.kind = kind) (solid : kind.isSolid = true)
      (other : kind ≠ .string) (builtin : Bool) : S.Gives (S.Both E)
      ((ParseM.advance >>= fun _ => pure (Expr.name s.peek.text builtin s.peek.span)).run s)
      ((ParseM.advance >>= fun _ => pure (Expr.name t.peek.text builtin t.peek.span)).run t) :=
    single same solid fun alike =>
      L.text alike (same ▸ other) ▸ shape.name (L.span alike)
  dsimp only
  rw [L.kind here]
  split
  case h_1 kind => exact single kind rfl (shape.literal fun _ => .boolean true)
  case h_2 kind => exact single kind rfl (shape.literal fun _ => .boolean false)
  case h_3 kind => exact single kind rfl (shape.literal fun _ => .null)
  case h_4 kind =>
    exact single kind rfl (shape.literal fun text => .number (.ofLiteral text.toList))
  case h_5 kind => exact single kind rfl (shape.literal fun text => .string (stringValue text))
  case h_6 kind => exact named kind rfl (by decide) false
  case h_7 kind => exact named kind rfl (by decide) true
  case h_8 kind =>
    apply (L.run_advance here kind rfl).andThen
    intro _ _ _
    apply (L.expression_alike assignment).bind
    intro e e' same
    exact (L.alike_expect rfl _).bind fun _ _ _ => alike_pure same
  case h_9 => exact .failed (L.refuse _ here)

include returns assignment in
theorem postfixLink_alike (e e' : Expr) (same : E e e') :
    S.Alike (S.Both fun c d => E c.1 d.1 ∧ d.2 = c.2) (postfixLink inner e)
      (postfixLink inner e') := by
  apply L.alike_eat rfl
  intro call
  cases call with
  | true =>
      apply L.alike_link
      intro s t here
      apply (L.alike_inParens (L.expression_alike assignment) (expression_returns returns)
        .closeArguments s t here).bind
      rintro args args' u v ⟨listed, last, here'⟩
      exact .ok ⟨⟨shape.call same listed (shape.cover (shape.span same) last), rfl⟩, here'⟩
  | false =>
      apply L.alike_eat rfl
      intro member
      cases member with
      | true =>
          apply L.alike_link
          apply alike_get
          intro s t here
          dsimp only
          rw [L.kind here]
          split
          · next name =>
              have solid : s.peek.kind.isSolid = true := by
                rcases name with kind | kind <;> rw [kind] <;> rfl
              have other : s.peek.kind ≠ .string := by
                rcases name with kind | kind <;> rw [kind] <;> decide
              have first := L.token here solid
              apply (L.run_advance here rfl solid).andThen
              intro _ _ _
              refine alike_pure ⟨?_, rfl⟩
              rw [L.text first other]
              exact shape.member same (shape.cover (shape.span same) (L.span first))
          · exact .failed (L.refuse _ here)
      | false => exact alike_pure ⟨same, rfl⟩

include returns assignment in
theorem postfixed_alike : S.Alike (S.Both E) (postfixed inner) (postfixed inner) :=
  L.alike_chain <| (L.primary_alike shape assignment).bind fun _ _ same =>
    L.alike_repeating (postfixLink_progresses returns) (postfixLink_climbs returns)
      (L.postfixLink_alike shape returns assignment) same

include returns assignment in
theorem unary_alike (unary : S.Alike (S.Both E) inner.unary inner.unary) :
    S.Alike (S.Both E) (Parser.unary inner) (Parser.unary inner) := by
  apply alike_get
  intro s t here
  have signed (operator : UnaryOp) {kind : Kind} (same : s.peek.kind = kind)
      (solid : kind.isSolid = true) : S.Gives (S.Both E)
      ((ParseM.advance >>= fun _ => nested inner.unary >>= fun argument =>
        pure (Expr.unary operator argument (s.peek.span.cover argument.span))).run s)
      ((ParseM.advance >>= fun _ => nested inner.unary >>= fun argument =>
        pure (Expr.unary operator argument (t.peek.span.cover argument.span))).run t) := by
    apply (L.run_advance here same solid).andThen
    intro _ _ _
    apply (L.alike_nested L.here unary).bind
    intro argument argument' alike
    have first := L.span (L.token here (same ▸ solid))
    exact alike_pure (shape.unary alike (shape.cover first (shape.span alike)))
  dsimp only
  rw [L.kind here]
  split
  case h_1 kind => exact signed .not kind rfl
  case h_2 kind => exact signed .negate kind rfl
  case h_3 => exact L.postfixed_alike shape returns assignment s t here

section Chain

variable {operator? : Kind → Option BinaryOp} {operand : ParseM Expr}
  (signs : ∀ kind, operator? kind ≠ none → kind ∈ operatorKinds)
  (climbs : Returns false operand) (h : S.Alike (S.Both E) operand operand)
include signs h

theorem binaryLink_alike (e e' : Expr) (same : E e e') :
    S.Alike (S.Both fun c d => E c.1 d.1 ∧ d.2 = c.2) (binaryLink operator? operand e)
      (binaryLink operator? operand e') := by
  have solid : ∀ kind ∈ operatorKinds, kind.isSolid = true := by decide
  apply alike_get
  intro s t here
  rw [L.kind here]
  cases found : operator? s.peek.kind with
  | none => exact .ok ⟨⟨same, rfl⟩, here⟩
  | some operator =>
      have sign := signs s.peek.kind (by rw [found]; exact Option.some_ne_none _)
      apply (L.run_advance here rfl (solid _ sign)).andThen
      intro _ _ _
      apply L.alike_link
      apply h.bind
      intro right right' same'
      exact alike_pure ⟨shape.binary same same' (shape.cover (shape.span same) (shape.span same')),
        rfl⟩

include climbs in
theorem leftChain_alike :
    S.Alike (S.Both E) (leftChain operator? operand) (leftChain operator? operand) := by
  have eof : operator? .eof = none := by
    by_contra found
    exact absurd (signs .eof found) (by decide)
  exact L.alike_chain <| h.bind fun _ _ same =>
    L.alike_repeating (binaryLink_progresses climbs eof) (binaryLink_climbs climbs)
      (L.binaryLink_alike shape signs h) same

end Chain

include returns assignment in
theorem disjunction_alike (unary : S.Alike (S.Both E) inner.unary inner.unary) :
    S.Alike (S.Both E) (disjunction inner) (disjunction inner) := by
  have both : Returns false (disjunction inner) ∧
      S.Alike (S.Both E) (disjunction inner) (disjunction inner) := by
    refine disjunction_of_operands
      (P := fun rule => Returns false rule ∧ S.Alike (S.Both E) rule rule)
      ⟨unary_returns returns, L.unary_alike shape returns assignment unary⟩
      fun _ _ signs operand => ?_
    exact ⟨leftChain_returns operand.1, L.leftChain_alike shape signs operand.1 operand.2⟩
  exact both.2

include returns assignment in
theorem assignment_alike (unary : S.Alike (S.Both E) inner.unary inner.unary) :
    S.Alike (S.Both E) (Parser.assignment inner) (Parser.assignment inner) := by
  apply (L.disjunction_alike shape returns assignment unary).bind
  intro target target' same s t here
  rw [run_bind_ok (run_check .assign s), run_bind_ok (run_check .assign t),
    L.check_eq .assign here, shape.isTarget same]
  split
  · next found =>
      have kind : s.peek.kind = .assign := of_decide_eq_true found
      split
      · apply (L.run_advance here kind rfl).andThen
        intro _ _ _
        apply (L.alike_nested L.here assignment).bind
        intro value value' same'
        exact alike_pure
          (shape.assignment same same' (shape.cover (shape.span same) (shape.span same')))
      · exact .failed (L.refuse _ here)
  · exact .ok ⟨same, here⟩

end Expressions

end Lockstep.Levelled

end Parser

end ScriptLens
