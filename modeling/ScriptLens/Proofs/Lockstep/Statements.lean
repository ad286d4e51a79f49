import ScriptLens.Proofs.Lockstep.Expressions
import ScriptLens.Proofs.Parser.Total

/-!
Statements on two sides. A rule for statements keeps in step if the rules do that it reaches one
level down, and what it gives is alike in one layer: the same node over parts that are alike. So
what is to be shown of the statements that a parser gives, or of those that two parsers give, is
shown of one layer at a time.
-/

namespace ScriptLens

open ParseM ScriptLens.Parser

namespace Parser

/-- What is alike one level below a statement. -/
structure Parts where
  Exprs : Expr → Expr → Prop
  Chains : IfChain → IfChain → Prop
  Stmts : Stmt → Stmt → Prop

namespace Parts

variable (S : Sides) (P : Parts)

structure Param (p q : ScriptLens.Param) : Prop where
  name : q.name = p.name
  byRef : q.byRef = p.byRef
  variadic : q.variadic = p.variadic
  default : Option.Rel P.Exprs p.default q.default
  span : S.Spans p.span q.span

inductive Alternate : ScriptLens.Alternate → ScriptLens.Alternate → Prop
  | absent : Alternate .absent .absent
  | elseIf {c c'} : P.Chains c c' → Alternate (.elseIf c) (.elseIf c')
  | otherwise {body body'} : List.Forall₂ P.Stmts body body' →
      Alternate (.otherwise body) (.otherwise body')

inductive Chain : IfChain → IfChain → Prop
  | mk {test test' body body' rest rest' span span'} : P.Exprs test test' →
      List.Forall₂ P.Stmts body body' → P.Alternate rest rest' → S.Spans span span' →
      Chain (.mk test body rest span) (.mk test' body' rest' span')

/-- The same node over parts that are alike. -/
inductive Layer : Stmt → Stmt → Prop
  | ifs {c c'} : P.Chain S c c' → Layer (.ifs c) (.ifs c')
  | whileLoop {test test' body body' span span'} : P.Exprs test test' →
      List.Forall₂ P.Stmts body body' → S.Spans span span' →
      Layer (.whileLoop test body span) (.whileLoop test' body' span')
  | forLoop {names iterable iterable' body body' span span'} : P.Exprs iterable iterable' →
      List.Forall₂ P.Stmts body body' → S.Spans span span' →
      Layer (.forLoop names iterable body span) (.forLoop names iterable' body' span')
  | loop {count count' body body' span span'} : Option.Rel P.Exprs count count' →
      List.Forall₂ P.Stmts body body' → S.Spans span span' →
      Layer (.loop count body span) (.loop count' body' span')
  | classDecl {name at' at'' base body body' span span'} : S.Spans at' at'' →
      List.Forall₂ P.Stmts body body' → S.Spans span span' →
      Layer (.classDecl name at' base body span) (.classDecl name at'' base body' span')
  | function {name at' at'' params params' body body' isStatic span span'} : S.Spans at' at'' →
      List.Forall₂ (P.Param S) params params' → List.Forall₂ P.Stmts body body' →
      S.Spans span span' → Layer (.function name at' params body isStatic span)
        (.function name at'' params' body' isStatic span')
  | returns {argument argument' span span'} : Option.Rel P.Exprs argument argument' →
      S.Spans span span' → Layer (.returns argument span) (.returns argument' span')
  | breaks {span span'} : S.Spans span span' → Layer (.breaks span) (.breaks span')
  | continues {span span'} : S.Spans span span' → Layer (.continues span) (.continues span')
  | hotkey {trigger body body' span span'} : List.Forall₂ P.Stmts body body' →
      S.Spans span span' → Layer (.hotkey trigger body span) (.hotkey trigger body' span')
  | directive {name line line' span span'} : S.Lines line line' → S.Spans span span' →
      Layer (.directive name (String.ofList (Text.trim line)) span)
        (.directive name (String.ofList (Text.trim line')) span')
  | expression {e e'} : P.Exprs e e' → Layer (.expression e e.span) (.expression e' e'.span)

/-- The rules that statements reach one level down give parts that are alike. -/
structure Below (inner : Level) : Prop where
  expression : S.Alike (S.Both P.Exprs) (Parser.expression inner) (Parser.expression inner)
  disjunction : S.Alike (S.Both P.Exprs) (nested inner.disjunction) (nested inner.disjunction)
  ifChain {s t : State} : S.Here s t → s.peek.kind.isSolid = true →
    S.Gives (S.Both P.Chains) ((nested inner.ifChain).run s) ((nested inner.ifChain).run t)
  recovered : S.Alike (S.Trailing (Option.Rel P.Stmts)) (recovered inner) (recovered inner)
  returns : inner.Returns
  tallies : inner.Tallies

/-- A further link of a chain of conditions. -/
theorem Below.elseIf {S : Sides} {P : Parts} {inner : Level} (h : P.Below S inner) {s t : State}
    (here : S.Here s t) (solid : s.peek.kind.isSolid = true) : S.Gives (S.Both P.Alternate)
      ((nested inner.ifChain >>= fun next => pure (ScriptLens.Alternate.elseIf next)).run s)
      ((nested inner.ifChain >>= fun next => pure (ScriptLens.Alternate.elseIf next)).run t) :=
  (h.ifChain here solid).andThen fun _ _ same => Sides.alike_pure (.elseIf same)

end Parts

/-- A condition on the state that is the same on both sides. -/
def Sides.Steady (S : Sides) (stop : State → Bool) : Prop := ∀ s t, S.Here s t → stop t = stop s

/-- The word that was looked for behind line breaks stands there. -/
theorem checkPastNewlines_peek {s : State} {kind : Kind}
    (found : s.checkPastNewlines kind = true) : s.skipNewlines.peek.kind = kind := by
  rw [State.checkPastNewlines_eq] at found
  exact of_decide_eq_true found

namespace Lockstep

open Sides

variable {S : Sides} (L : Lockstep S) {P : Parts} {inner : Level} {s t : State}
  {stop : State → Bool}
include L

theorem steady_atEnd : S.Steady State.atEnd := fun _ _ here => L.atEnd here

theorem steady_block : S.Steady fun s => s.atEnd || s.check .rBrace := by
  intro s t here
  dsimp only
  rw [L.atEnd here, L.check_eq _ here]

theorem steady_endsBody (atHotkey : Bool) : S.Steady (endsBody atHotkey) := by
  intro s t here
  rw [endsBody, endsBody, L.atEnd here, L.check_eq _ here, L.check_eq _ here, L.check_eq _ here,
    L.check_eq _ here]

section Bodies

variable (h : P.Below S inner)
include h

/-- The loop over statements starts at the same token once line breaks are passed over, and ends
there. -/
theorem statementLink_gives (steady : S.Steady stop) (as bs : List Stmt) (s t : State)
    (same : List.Forall₂ P.Stmts as bs) (late : S.Late s t) :
    S.Gives (fun c d u v => List.Forall₂ P.Stmts c.1 d.1 ∧ d.2 = c.2 ∧
      if c.2 then S.Late u v else S.Here u v)
      ((statementLink inner stop as).run s) ((statementLink inner stop bs).run t) := by
  have here := L.skipNewlines late
  rw [statementLink, statementLink, run_bind_ok (run_skipNewlines s),
    run_bind_ok (run_skipNewlines t), run_bind_ok (run_get s.skipNewlines),
    run_bind_ok (run_get t.skipNewlines), steady _ _ here]
  split
  · exact .ok ⟨same, rfl, here⟩
  · apply (h.recovered _ _ here).bind
    rintro a b u v ⟨both, behind⟩
    refine .ok ⟨?_, rfl, behind⟩
    cases both with
    | none => exact same
    | some read => exact .cons read same

theorem statementsUntil_alike (steady : S.Steady stop)
    (ends : ∀ s, s.atEnd = true → stop s = true) : S.Alike (S.Both (List.Forall₂ P.Stmts))
    (statementsUntil inner stop) (statementsUntil inner stop) := by
  have progresses := statementLink_progresses h.tallies ends
  have climbs := fun body => (statementLink_returns h.returns stop body).climbs
  have loop : S.Alike (S.Both (List.Forall₂ P.Stmts)) (repeating (statementLink inner stop) [])
      (repeating (statementLink inner stop) []) := by
    intro s t here
    have closed := L.closed (L.late here)
    exact Gives.of_loops (L.statementLink_gives h steady)
      (loops_of_progresses progresses climbs [] closed.1)
      (loops_of_progresses progresses climbs [] closed.2) .nil (L.late here)
  exact loop.bind fun _ _ same => alike_pure (List.forall₂_reverse_iff.mpr same)

theorem block_alike : S.Alike (S.Both (List.Forall₂ P.Stmts)) (block inner) (block inner) := by
  apply (L.alike_expect rfl _).bind
  intro _ _ _
  apply (L.statementsUntil_alike h L.steady_block endsBlock_atEnd).bind
  intro as bs same
  exact (L.alike_expect rfl _).bind fun _ _ _ => alike_pure same

/-- A block behind line breaks. -/
theorem blockBehind_alike : S.Alike (S.Both (List.Forall₂ P.Stmts))
    (ParseM.skipNewlines >>= fun _ => block inner)
    (ParseM.skipNewlines >>= fun _ => block inner) :=
  L.alike_skipNewlines (L.block_alike h)

theorem body_alike : S.Alike (S.Both (List.Forall₂ P.Stmts)) (body inner) (body inner) := by
  apply alike_get
  intro s t here
  rw [L.checkPastNewlines _ here]
  split
  · exact L.blockBehind_alike h s t here
  · exact L.statementsUntil_alike h (L.steady_endsBody false) (endsBody_atEnd false) s t here

theorem alternate_alike : S.Alike (S.Both P.Alternate) (alternate inner) (alternate inner) := by
  apply alike_get
  intro s t here
  have behind := L.skipNewlines (L.late here)
  rw [L.checkPastNewlines _ here]
  split
  · next found => exact h.elseIf behind (by rw [checkPastNewlines_peek found]; rfl)
  rw [run_bind_ok (run_get s), run_bind_ok (run_get t), L.checkPastNewlines _ here]
  split
  · next found =>
      rw [run_bind_ok (run_skipNewlines s), run_bind_ok (run_skipNewlines t)]
      apply (L.run_advance behind (checkPastNewlines_peek found) rfl).andThen
      intro _ _ _ u v here'
      rw [run_bind_ok (run_check .kwIf u), run_bind_ok (run_check .kwIf v), L.check_eq _ here']
      split
      · next found =>
          have kind : u.peek.kind = .kwIf := of_decide_eq_true found
          exact h.elseIf here' (by rw [kind]; rfl)
      · exact (L.body_alike h u v here').andThen fun _ _ same => alike_pure (.otherwise same)
  · exact alike_pure .absent s t here

theorem ifChain_gives (here : S.Here s t) (solid : s.peek.kind.isSolid = true) :
    S.Gives (S.Both (P.Chain S)) ((ifChain inner).run s) ((ifChain inner).run t) := by
  apply (L.run_advance here rfl solid).andThen
  intro first first' word
  apply h.expression.bind
  intro test test' tested
  apply (L.body_alike h).bind
  intro stmts stmts' inside
  apply (L.alternate_alike h).bind
  intro rest rest' further
  exact L.alike_close word.2 fun _ _ spans => .mk tested inside further spans

theorem whileLoop_gives (here : S.Here s t) (kind : s.peek.kind = .kwWhile) :
    S.Gives (S.Both (P.Layer S)) ((whileLoop inner).run s) ((whileLoop inner).run t) := by
  apply (L.run_advance here kind rfl).andThen
  intro first first' word
  apply h.expression.bind
  intro test test' tested
  apply (L.body_alike h).bind
  intro stmts stmts' inside
  exact L.alike_close word.2 fun _ _ spans => .whileLoop tested inside spans

end Bodies

theorem loopVariables_alike :
    S.Alike (S.Both fun names names' => names' = names) loopVariables loopVariables := by
  have link (names names' : List String) (same : names' = names) :
      S.Alike (S.Both fun c d => d.1 = c.1 ∧ d.2 = c.2) (variableLink names)
        (variableLink names') := by
    apply L.alike_eat rfl
    intro more
    cases more with
    | true =>
        apply (L.alike_expect rfl _).bind
        rintro a b ⟨kind, alike⟩
        exact alike_pure ⟨by rw [L.text alike (by rw [kind]; decide), same], rfl⟩
    | false => exact alike_pure ⟨same, rfl⟩
  apply (L.alike_expect rfl _).bind
  rintro a b ⟨kind, alike⟩
  have start : [b.text] = [a.text] := by rw [L.text alike (by rw [kind]; decide)]
  have climbs := fun names => (variableLink_returns names).climbs
  exact (L.alike_repeating variableLink_progresses climbs link start).bind fun _ _ same =>
    alike_pure (congrArg List.reverse same)

theorem closeHeader_alike (parenthesized : Bool) :
    S.Alike (S.Both fun _ _ => True) (closeHeader parenthesized) (closeHeader parenthesized) := by
  cases parenthesized with
  | true => exact (L.alike_expect rfl _).bind fun _ _ _ => alike_pure trivial
  | false => exact alike_pure trivial

theorem superClass?_alike :
    S.Alike (S.Both fun base base' => base' = base) superClass? superClass? := by
  apply alike_get
  intro s t here
  dsimp only
  rw [L.kind here]
  by_cases named : s.peek.kind = .identifier
  · have first := L.token here (by rw [named]; rfl)
    rw [L.text first (by rw [named]; decide)]
    split
    · apply (L.run_advance here named rfl).andThen
      intro _ _ _
      apply (L.alike_expect rfl _).bind
      rintro a b ⟨kind, alike⟩
      exact alike_pure (congrArg some (L.text alike (by rw [kind]; decide)))
    · exact .ok ⟨rfl, here⟩
  · rw [if_neg fun both => named both.1, if_neg fun both => named both.1]
    exact .ok ⟨rfl, here⟩

section Statements

variable (h : P.Below S inner)
include h

theorem forLoop_gives (here : S.Here s t) (kind : s.peek.kind = .kwFor) :
    S.Gives (S.Both (P.Layer S)) ((forLoop inner).run s) ((forLoop inner).run t) := by
  apply (L.run_advance here kind rfl).andThen
  intro first first' word
  apply L.alike_eat rfl
  intro parenthesized
  apply L.loopVariables_alike.bind
  rintro names _ rfl
  apply (L.alike_expect rfl _).bind
  intro _ _ _
  apply h.expression.bind
  intro iterable iterable' ranged
  apply (L.closeHeader_alike parenthesized).bind
  intro _ _ _
  apply (L.body_alike h).bind
  intro stmts stmts' inside
  exact L.alike_close word.2 fun _ _ spans => .forLoop ranged inside spans

theorem operand?_alike (closing : Kind) : S.Alike (S.Both (Option.Rel P.Exprs))
    (operand? inner closing) (operand? inner closing) := by
  apply alike_get
  intro s t here
  rw [L.atEnd here, L.check_eq _ here, L.check_eq _ here]
  split
  · exact .ok ⟨.none, here⟩
  · exact (h.expression s t here).andThen fun _ _ same => alike_pure (.some same)

theorem loop_gives (here : S.Here s t) (kind : s.peek.kind = .kwLoop) :
    S.Gives (S.Both (P.Layer S)) ((loop inner).run s) ((loop inner).run t) := by
  apply (L.run_advance here kind rfl).andThen
  intro first first' word
  apply (L.operand?_alike h .lBrace).bind
  intro count count' counted
  apply (L.body_alike h).bind
  intro stmts stmts' inside
  exact L.alike_close word.2 fun _ _ spans => .loop counted inside spans

theorem returns_gives (here : S.Here s t) (kind : s.peek.kind = .kwReturn) :
    S.Gives (S.Both (P.Layer S)) ((returns inner).run s) ((returns inner).run t) := by
  apply (L.run_advance here kind rfl).andThen
  intro first first' word
  apply (L.operand?_alike h .rBrace).bind
  intro argument argument' given
  exact L.alike_close word.2 fun _ _ spans => .returns given spans

theorem default?_alike :
    S.Alike (S.Both (Option.Rel P.Exprs)) (default? inner) (default? inner) := by
  apply L.alike_eat rfl
  intro given
  cases given with
  | true => exact h.disjunction.bind fun _ _ same => alike_pure (.some same)
  | false => exact alike_pure .none

theorem param_alike : S.Alike (S.Both (P.Param S)) (param inner) (param inner) := by
  apply alike_get
  intro s t here
  apply L.run_marked here rfl
  rintro first byRef name name' ⟨kind, alike⟩
  apply L.alike_eat rfl
  intro variadic
  apply (L.default?_alike h).bind
  intro default default' given
  exact L.alike_close first fun _ _ spans =>
    ⟨L.text alike (by rw [kind]; decide), rfl, rfl, given, spans⟩

theorem function_alike : S.Alike (S.Both (P.Layer S)) (function inner) (function inner) := by
  apply alike_get
  intro s t here
  apply L.run_marked here rfl
  rintro first isStatic name name' ⟨kind, alike⟩
  apply (L.alike_expect rfl _).bind
  intro _ _ _ u v here'
  have listed := L.alike_inParens (L.param_alike h) (param_returns h.returns) .closeParameters
  apply (listed u v here').bind
  rintro params params' w x ⟨listed, _, here''⟩
  refine L.alike_skipNewlines ?_ w x here''
  apply (L.block_alike h).bind
  intro stmts stmts' inside
  rw [L.text alike (by rw [kind]; decide)]
  exact L.alike_close first fun _ _ spans => .function (L.span alike) listed inside spans

theorem classDecl_gives (here : S.Here s t) (kind : s.peek.kind = .kwClass) :
    S.Gives (S.Both (P.Layer S)) ((classDecl inner).run s) ((classDecl inner).run t) := by
  apply (L.run_advance here kind rfl).andThen
  intro first first' word
  apply (L.alike_expect rfl _).bind
  rintro name name' ⟨kind', alike⟩
  apply L.superClass?_alike.bind
  rintro base _ rfl
  apply L.alike_skipNewlines
  apply (L.block_alike h).bind
  intro stmts stmts' inside
  rw [L.text alike (by rw [kind']; decide)]
  exact L.alike_close word.2 fun _ _ spans => .classDecl (L.span alike) inside spans

theorem hotkeyBody_alike : S.Alike (S.Trailing (List.Forall₂ P.Stmts)) (hotkeyBody inner)
    (hotkeyBody inner) := by
  have trailing {m : ParseM (List Stmt)} (rule : S.Alike (S.Both (List.Forall₂ P.Stmts)) m m) :
      S.Alike (S.Trailing (List.Forall₂ P.Stmts)) m m :=
    rule.imp fun _ _ _ _ both => ⟨both.1, L.late both.2⟩
  apply alike_get
  intro s t here
  rw [L.checkPastNewlines _ here, L.atEnd here, L.check_eq _ here]
  split
  · exact trailing (L.blockBehind_alike h) s t here
  split
  · exact trailing (L.statementsUntil_alike h (L.steady_endsBody true) (endsBody_atEnd true))
      s t here
  · apply (h.recovered s t here).bind
    rintro a b u v ⟨both, late⟩
    cases both with
    | none => exact .ok ⟨.nil, late⟩
    | some read => exact .ok ⟨.cons read .nil, late⟩

theorem hotkey_gives (here : S.Here s t) (kind : s.peek.kind = .hotkey) :
    S.Gives (S.Trailing (P.Layer S)) ((hotkey inner).run s) ((hotkey inner).run t) := by
  apply (L.run_advance here kind rfl).bind
  rintro first first' u v ⟨⟨kind', alike⟩, here'⟩
  apply (L.hotkeyBody_alike h u v here').bind
  rintro stmts stmts' w x ⟨inside, late⟩
  refine .ok ⟨?_, late⟩
  rw [L.text alike (by rw [kind']; decide)]
  exact .hotkey inside (L.spanFrom late alike)

omit h in
theorem directive_gives (here : S.Here s t) (kind : s.peek.kind = .directive) :
    S.Gives (S.Both (P.Layer S)) (directive.run s) (directive.run t) := by
  apply (L.run_advance here kind rfl).andThen
  rintro first first' ⟨kind', alike⟩
  apply alike_get
  intro u v here'
  rw [L.text alike (by rw [kind']; decide)]
  exact L.alike_close alike (fun _ _ spans => .directive (L.lineText here') spans) _ _
    (L.skipLine here')

omit h in
/-- A statement of one word. -/
theorem simple_gives {kind : Kind} (here : S.Here s t) (same : s.peek.kind = kind)
    (solid : kind.isSolid = true) {node : Span → Stmt}
    (alike : ∀ span span', S.Spans span span' → P.Layer S (node span) (node span')) :
    S.Gives (S.Both (P.Layer S)) ((ParseM.advance >>= fun first => pure (node first.span)).run s)
      ((ParseM.advance >>= fun first => pure (node first.span)).run t) :=
  (L.run_advance here same solid).andThen fun _ _ word => alike_pure (alike _ _ (L.span word.2))

theorem statement_alike : S.Alike (S.Trailing (P.Layer S)) (statement inner) (statement inner) := by
  have trailing {outcome outcome' : Except ParseError Stmt × State}
      (rule : S.Gives (S.Both (P.Layer S)) outcome outcome') :
      S.Gives (S.Trailing (P.Layer S)) outcome outcome' :=
    rule.imp fun _ _ _ _ both => ⟨both.1, L.late both.2⟩
  apply alike_get
  intro s t here
  rw [L.kind here]
  split
  case h_1 kind =>
    exact trailing ((L.ifChain_gives h here (by rw [kind]; rfl)).andThen fun _ _ chain =>
      alike_pure (.ifs chain))
  case h_2 kind => exact trailing (L.whileLoop_gives h here kind)
  case h_3 kind => exact trailing (L.forLoop_gives h here kind)
  case h_4 kind => exact trailing (L.loop_gives h here kind)
  case h_5 kind => exact trailing (L.classDecl_gives h here kind)
  case h_6 kind => exact trailing (L.returns_gives h here kind)
  case h_7 kind => exact trailing (L.simple_gives here kind rfl fun _ _ => .breaks)
  case h_8 kind => exact trailing (L.simple_gives here kind rfl fun _ _ => .continues)
  case h_9 kind => exact L.hotkey_gives h here kind
  case h_10 kind => exact trailing (L.directive_gives here kind)
  case h_11 =>
    rw [L.atFunction here]
    split
    · exact trailing (L.function_alike h s t here)
    · exact trailing ((h.expression s t here).andThen fun _ _ same =>
        alike_pure (.expression same))

end Statements

end Lockstep

/-- Relations of trees that nodes have if their parts have them. -/
structure TreeShape (S : Sides) (P : Parts) : Prop where
  expr : ExprShape S P.Exprs
  chain {c c' : IfChain} : P.Chain S c c' → P.Chains c c'
  stmt {a b : Stmt} : P.Layer S a b → P.Stmts a b

/-- The rules of a level give trees that are alike. -/
structure Parts.Alike (S : Sides) (P : Parts) (inner : Level) : Prop where
  assignment : S.Alike (S.Both P.Exprs) inner.assignment inner.assignment
  disjunction : S.Alike (S.Both P.Exprs) inner.disjunction inner.disjunction
  unary : S.Alike (S.Both P.Exprs) inner.unary inner.unary
  ifChain {s t : State} : S.Here s t → s.peek.kind.isSolid = true →
    S.Gives (S.Both P.Chains) (inner.ifChain.run s) (inner.ifChain.run t)
  statement : S.Alike (S.Trailing P.Stmts) inner.statement inner.statement
  returns : inner.Returns
  tallies : inner.Tallies

namespace Lockstep.Levelled

variable {S : Sides} (L : Lockstep.Levelled S) {P : Parts} {inner : Level}
include L

theorem below (h : P.Alike S inner) : P.Below S inner where
  expression := L.expression_alike h.assignment
  disjunction := L.alike_nested L.here h.disjunction
  ifChain {s t} here solid := by
    have deeper : S.Here { s with depth := s.depth + 1 } { t with depth := t.depth + 1 } := by
      rw [L.here.depth here]
      exact L.here.atDepth _ here
    exact L.gives_nested L.here here (h.ifChain deeper solid)
  recovered := L.alike_recovered h.statement
  returns := h.returns
  tallies := h.tallies

theorem tower_alike (shape : TreeShape S P) (levels : Nat) : P.Alike S (tower levels) := by
  induction levels with
  | zero =>
      exact ⟨L.alike_refuse _, L.alike_refuse _, L.alike_refuse _,
        fun here _ => L.alike_refuse _ _ _ here, L.alike_refuse _, tower_returns 0,
        tower_tallies 0⟩
  | succ levels ih =>
      have below := L.below ih
      exact ⟨L.assignment_alike shape.expr ih.returns ih.assignment ih.unary,
        L.disjunction_alike shape.expr ih.returns ih.assignment ih.unary,
        L.unary_alike shape.expr ih.returns ih.assignment ih.unary,
        fun here solid => (L.ifChain_gives below here solid).imp fun _ _ _ _ both =>
          ⟨shape.chain both.1, both.2⟩,
        (L.statement_alike below).imp fun _ _ _ _ both => ⟨shape.stmt both.1, both.2⟩,
        tower_returns (levels + 1), tower_tallies (levels + 1)⟩

theorem rules_alike (shape : TreeShape S P) : P.Below S rules := L.below (L.tower_alike shape _)

/-- Two parsers that keep in step give scripts that are alike. -/
theorem script_alike (shape : TreeShape S P) :
    S.Alike (S.Both (List.Forall₂ P.Stmts)) script script :=
  L.statementsUntil_alike (L.rules_alike shape) L.steady_atEnd fun _ => id

end Lockstep.Levelled

end Parser

end ScriptLens
