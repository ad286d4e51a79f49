import ScriptLens.Proofs.Parser.Total
import ScriptLens.Proofs.Spans.Expressions

/-!
Where statements stand. A statement runs from its first token to the last one it consumed, with what
is dropped inside it among its parts; only an expression statement leaves the parentheses at the
edges of its expression out. A dropped statement runs from its first token to the last one that
recovery passed over.
-/

namespace ScriptLens

open Piece ParseM

/-- Statements that are an expression. -/
def Stmt.isExpression : Stmt → Bool
  | .expression .. => true
  | _ => false

namespace Parser

variable {α : Type} {s t : State} {ps : List Piece} {ts : List SpanTree} {m : ParseM α}

/-- One node with a given span and tree. -/
structure Whole (span : Span) (tree : SpanTree) (ps : List Piece) : Prop where
  shape : ∃ parts, ps = [node span parts] ∧ SpanTree.node span (trees parts) = tree
  even : Braced 0 ps

theorem Whole.row {span : Span} {tree : SpanTree} (h : Whole span tree ps) :
    Row false [tree] ps := by
  obtain ⟨parts, rfl, same⟩ := h.shape
  refine ⟨nofun, ?_, h.even⟩
  simp [same]

/-- The pieces of a statement that was kept: a node, and around an expression perhaps
parentheses. -/
structure Stands (stmt : Stmt) (ps : List Piece) : Prop where
  shape : ∃ (opens : List Token) (core : List Piece) (closes : List Token), ps =
    opens.map token ++ node stmt.span core :: closes.map token ∧ (∀ t ∈ opens, t.kind = .lParen) ∧
      (∀ t ∈ closes, t.kind = .rParen) ∧ SpanTree.node stmt.span (trees core) = stmt.spans
  flush : stmt.isExpression = false → ∃ core, ps = [node stmt.span core]
  even : Braced 0 ps

theorem Stands.row {stmt : Stmt} (h : Stands stmt ps) : Row false [stmt.spans] ps := by
  obtain ⟨opens, core, closes, rfl, _, _, tree⟩ := h.shape
  refine ⟨nofun, ?_, h.even⟩
  simp [tree]

theorem Whole.stands {stmt : Stmt} (h : Whole stmt.span stmt.spans ps) : Stands stmt ps := by
  obtain ⟨parts, rfl, tree⟩ := h.shape
  exact ⟨⟨[], parts, [], rfl, by simp, by simp, tree⟩, fun _ => ⟨parts, rfl⟩, h.even⟩

theorem Sits.stands {e : Expr} (sits : Sits e ps) (laid : Laid s ps t) :
    ∃ qs, Laid s qs t ∧ Stands (.expression e e.span) qs := by
  obtain ⟨opens, core, closes, rfl, before, behind, tree⟩ := sits.shape
  have covers : e.span.Over (leaves [node e.span core]) := by
    simpa using laid.sound.covers
  have shape : opens.map token ++ node e.span core :: closes.map token =
      opens.map token ++ ([node e.span core] ++ closes.map token) := rfl
  have even := sits.even
  rw [shape] at laid even
  refine ⟨_, laid.wrap covers, ⟨opens, [node e.span core], closes, rfl, before, behind, ?_⟩,
    nofun, even.wrap⟩
  simp [Stmt.span, Stmt.spans, tree]

/-- The end of a rule: a node over all it consumed. -/
theorem close_whole (orderly : s.Orderly) {f : State → α} {span : α → Span} {tree : α → SpanTree}
    (spans : ∀ t, span (f t) = t.spanFrom s.peek)
    (same : ∀ t, tree (f t) = .node (t.spanFrom s.peek) ts) :
    From s (Row true ts) (get >>= fun t => pure (f t)) fun a => Whole (span a) (tree a) := by
  intro ps t laid row
  have some := row.begun rfl
  have head : (leaves ps).head? = .some s.peek := by
    cases first : leaves ps with
    | nil => exact absurd first some
    | cons x rest =>
        rw [State.peek, laid.ahead, first]
        rfl
  have covers := State.over_spanFrom (laid.order orderly) head (laid.getLast some)
  refine ⟨_, laid.node covers, ⟨ps, ?_, ?_⟩, row.even.node⟩
  · rw [spans]
  · rw [same, spans, row.trees]

/-- The start of a rule: its first token. -/
theorem open_row (orderly : s.Orderly) (plain : s.peek.kind.isPlain = true) {f : Token → ParseM α}
    {Q : α → List Piece → Prop} (h : From s (Row true []) (f s.peek) Q) :
    Ends s Q ((advance >>= f).run s) := by
  apply From.advance (P := (· = [])) orderly .refl rfl plain
  apply h.weaken ?_ fun _ _ => id
  rintro _ ⟨_, rfl, rfl⟩
  exact Row.push .nil plain

/-- A name, which has a span of its own. -/
theorem row_name (orderly : s.Orderly) {begun : Bool} {what : Expected}
    (other : what ≠ .closeBlock) : From s (Row begun ts) (expect .identifier what) fun t =>
    Row true (ts ++ [.node t.span []]) := by
  intro ps t laid row
  have identifier : Kind.identifier.isPlain = true := rfl
  have ends :=
    From.expect orderly identifier other (fun ps (row : Row begun ts ps) => row.even) ps t laid row
  generalize (expect .identifier what).run t = outcome at ends
  obtain ⟨result, u⟩ := outcome
  cases result with
  | error e => exact ends
  | ok name =>
      obtain ⟨_, laid', ⟨qs, row', rfl⟩, kind⟩ := ends
      have plain : name.kind.isPlain = true := by rw [kind]; rfl
      have single : Laid s (qs ++ ([token name] ++ [])) u := laid'
      refine ⟨_, single.wrap (Span.over_token name), ?_, ?_, ?_⟩
      · simp
      · simp [row'.trees]
      · have even : Braced 0 (qs ++ ([token name] ++ [])) := row'.even.push plain
        exact even.wrap

/-- Tokens consumed in any way. -/
theorem Walk.passes (h : Walk false s t) : ∃ ts : List Token, s.ahead = ts ++ t.ahead ∧
    t.last = ts.getLastD s.last := by
  induction h with
  | refl => exact ⟨[], rfl, rfl⟩
  | @tail u v before step ih =>
      obtain ⟨ts, ahead, last⟩ := ih
      cases step with
      | @consume _ _ next rest here =>
          refine ⟨ts ++ [next], ?_, ?_⟩
          · rw [ahead, here]
            simp
          · simp
      | _ => exact ⟨ts, ahead, last⟩

/-- The pieces of a statement that was read, kept or not. -/
def Settles : Option Stmt → List Piece → Prop
  | some stmt, ps => Stands stmt ps
  | none, ps => (∃ parts beyond entry, ps = [dropped parts beyond entry]) ∧ Braced 0 ps

theorem Settles.row {stmt : Option Stmt} (h : Settles stmt ps) :
    Row false (stmt.toList.map Stmt.spans) ps := by
  cases stmt with
  | some stmt => exact Stands.row h
  | none =>
      obtain ⟨⟨parts, beyond, entry, rfl⟩, even⟩ := h
      exact ⟨nofun, rfl, even⟩

/-- A statement that failed is dropped with what recovery passes over. -/
theorem recover_laid (orderly : s.Orderly) (nonempty : s.ahead ≠ []) {e : ParseError}
    (laid : Laid s ps t) (found : e.found = t.peek) (braced : Braced e.unclosed.toNat ps) :
    ∃ qs, Laid s qs (t.recover s.peek e) ∧ Settles none qs := by
  have walk : Walk false t t.synchronize := t.walk_synchronize
  obtain ⟨beyond, ahead, last⟩ := walk.passes
  have whole : s.ahead = leaves ps ++ beyond ++ t.synchronize.ahead := by
    rw [laid.ahead, ahead, List.append_assoc]
  have some : leaves ps ++ beyond ≠ [] := by
    intro nothing
    obtain ⟨none, none'⟩ := List.append_eq_nil_iff.mp nothing
    rw [none, List.nil_append] at whole
    by_cases left : t.ahead = []
    · have here := laid.ahead
      rw [none, left] at here
      exact nonempty here
    · have shorter := State.synchronize_length left
      rw [ahead, none'] at shorter
      exact Nat.lt_irrefl _ shorter
  have order : InOrder (leaves ps ++ beyond) := by
    have order := orderly.order
    rw [whole] at order
    exact order.left
  have head : (leaves ps ++ beyond).head? = .some s.peek := by
    cases first : leaves ps ++ beyond with
    | nil => exact absurd first some
    | cons x rest =>
        rw [State.peek, whole, first]
        rfl
  have tail : (leaves ps ++ beyond).getLast? = .some t.synchronize.last := by
    have final : t.synchronize.last = (leaves ps ++ beyond).getLastD s.last := by
      rw [last, laid.last]
      simp
    rw [final, List.getLastD_eq_getLast?, List.getLast?_eq_some_getLast some, Option.getD_some]
  have covered := State.over_spanFrom order head tail
  refine ⟨[dropped ps beyond ⟨t.synchronize.spanFrom s.peek, e⟩], ⟨?_, ?_, ?_, ?_, ?_⟩,
    ⟨_, _, _, rfl⟩, braced.drop⟩
  · rw [leaves_dropped, leaves_nil, List.append_nil]
    exact whole
  · exact walk.final.trans laid.final
  · rw [leaves_dropped, leaves_nil, List.append_nil, List.getLastD_eq_getLast?, tail]
    rfl
  · change _ :: t.synchronize.skipped = _
    rw [walk.skipped, laid.skipped]
    simp
  · have sound := laid.sound
    have rest :
        t.ahead ++ [t.final] = beyond ++ (t.synchronize.ahead ++ [t.synchronize.final]) := by
      rw [ahead, walk.final, List.append_assoc]
    have peek : (t.ahead ++ [t.final]).head? = .some e.found := by
      rw [found, State.peek]
      cases t.ahead <;> rfl
    rw [rest] at sound peek
    exact .dropped covered peek sound .nil

end Parser

/-- The rules of a level give expressions and statements with their pieces. -/
structure Level.Stands (inner : Level) : Prop where
  seats : inner.Seats
  ifChain : ∀ s : Parser.State, s.Orderly → s.peek.kind.isPlain = true → Parser.Ends s
    (fun chain => Parser.Whole chain.span (Stmt.chainSpans chain)) (inner.ifChain.run s)
  statement : Parser.Gives inner.statement Parser.Stands

namespace Parser

variable {inner : Level}

theorem recovered_ends (h : inner.Stands) (orderly : s.Orderly) (nonempty : s.ahead ≠ []) :
    Ends s Settles ((recovered inner).run s) := by
  have begun := h.statement.nested s.begin ⟨orderly.order, orderly.closed, orderly.solid⟩
  have ends : Ends s Stands ((nested inner.statement).run s.begin) := begun.enter rfl rfl rfl rfl
  rw [run_recovered]
  generalize (nested inner.statement).run s.begin = outcome at ends
  obtain ⟨result, t⟩ := outcome
  cases result with
  | ok stmt => exact ends
  | error e =>
      obtain ⟨ps, laid, found, braced⟩ := ends
      exact recover_laid orderly nonempty laid found braced

theorem recovered_row (h : inner.Stands) (orderly : s.Orderly) {begun : Bool} (laid : Laid s ps t)
    (row : Row begun ts ps) (nonempty : t.ahead ≠ []) : Ends s
    (fun stmt => Row begun (ts ++ stmt.toList.map Stmt.spans)) ((recovered inner).run t) := by
  apply ((recovered_ends h (laid.orderly orderly) nonempty).behind laid row.even).weaken
  rintro stmt _ ⟨qs, settles, rfl⟩
  exact row.append settles.row

theorem statementLink_row (h : inner.Stands) (orderly : s.Orderly) {stop : State → Bool}
    (ends : ∀ s, s.atEnd = true → stop s = true) (body : List Stmt) :
    From s (Row false (body.reverse.map Stmt.spans)) (statementLink inner stop body)
      fun next => Row false (next.1.reverse.map Stmt.spans) := by
  apply (views_skipNewlines.skip orderly).bind
  intro _ ps t laid row
  rw [run_bind_ok (run_get t)]
  cases stopped : stop t with
  | true => exact ⟨ps, laid, row⟩
  | false =>
      have ends := recovered_row h orderly laid row (State.ahead_ne_nil_of_stop ends stopped)
      obtain ⟨stmt, u, run⟩ := recovered_ok inner t
      rw [run] at ends
      rw [if_neg Bool.false_ne_true, run_bind_ok run]
      obtain ⟨qs, laid', row'⟩ := ends
      refine ⟨qs, laid', ?_⟩
      cases stmt <;> simpa using row'

theorem statementsUntil_views (h : inner.Stands) {stop : State → Bool}
    (ends : ∀ s, s.atEnd = true → stop s = true) :
    Views (statementsUntil inner stop) fun body => body.map Stmt.spans := by
  apply From.gives
  intro s orderly
  apply From.bind (Q := fun body => Row false (body.reverse.map Stmt.spans))
  · apply (From.repeating (statementLink_row h orderly ends) []).weaken ?_ fun _ _ => id
    rintro _ rfl
    exact .nil
  · intro body
    exact row_pure rfl

theorem statementLink_ok (inner : Level) (stop : State → Bool) (body : List Stmt) (s : State) :
    ∃ next t, (statementLink inner stop body).run s = (.ok next, t) := by
  rw [statementLink, run_bind_ok (run_skipNewlines s), run_bind_ok (run_get s.skipNewlines)]
  split
  · exact ⟨_, _, rfl⟩
  · obtain ⟨stmt, t, run⟩ := recovered_ok inner s.skipNewlines
    rw [run_bind_ok run]
    exact ⟨_, _, rfl⟩

theorem repeating_ok {step : α → ParseM (α × Bool)}
    (h : ∀ a s, ∃ next t, (step a).run s = (.ok next, t)) (a : α)
    (s : State) : ∃ b t, (repeating step a).run s = (.ok b, t) := by
  have rounds := rounds_repeating step a s
  generalize (repeating step a).run s = outcome at rounds ⊢
  induction rounds with
  | @failed a s t e run =>
      obtain ⟨next, u, succeeds⟩ := h a s
      cases run.symm.trans succeeds
  | stopped => exact ⟨_, _, rfl⟩
  | again _ _ _ ih => exact ih

theorem statementsUntil_ok (inner : Level) (stop : State → Bool) (s : State) :
    ∃ body t, (statementsUntil inner stop).run s = (.ok body, t) := by
  obtain ⟨body, t, run⟩ := repeating_ok (statementLink_ok inner stop) [] s
  rw [statementsUntil, run_bind_ok run]
  exact ⟨_, _, rfl⟩

/-- A block that is not closed leaves its brace open; nothing inside it fails. -/
theorem block_views (h : inner.Stands) : Views (block inner) fun body => body.map Stmt.spans := by
  intro s orderly
  rw [block, run_bind, run_expect]
  cases opened : s.check .lBrace with
  | false => exact From.refuse _ (by decide) braced_of_nil [] s .refl rfl
  | true =>
      have kind : s.peek.kind = .lBrace := of_decide_eq_true opened
      have first : Laid s [token s.peek] s.advance := by
        apply Laid.consume orderly <;> rw [kind] <;> decide
      have ends := statementsUntil_views h endsBlock_atEnd s.advance (first.orderly orderly)
      obtain ⟨body, t, run⟩ :=
        statementsUntil_ok inner (fun s => s.atEnd || s.check .rBrace) s.advance
      rw [run] at ends
      obtain ⟨ps, laid, row⟩ := ends
      have inside := (braced_opening kind).append row.even
      have upTo := first.trans laid
      simp only [if_true]
      rw [run_bind_ok run, run_bind, run_expect]
      cases closed : t.check .rBrace with
      | false =>
          exact ⟨_, upTo, rfl, inside⟩
      | true =>
          have kind' : t.peek.kind = .rBrace := of_decide_eq_true closed
          have last : Laid t [token t.peek] t.advance := by
            apply Laid.consume (upTo.orderly orderly) <;> rw [kind'] <;> decide
          refine ⟨_, upTo.trans last, nofun, ?_, inside.closing kind'⟩
          simp [row.trees]

theorem body_views (h : inner.Stands) : Views (body inner) fun body => body.map Stmt.spans := by
  intro s orderly
  rw [body, run_bind_ok (run_get s)]
  split
  · exact (views_skipNewlines.bind fun _ _ orderly => (block_views h).row orderly) s orderly
  · exact statementsUntil_views h (endsBody_atEnd false) s orderly

/-- One more link of a chain, at its keyword. -/
theorem elseIf_ends (h : inner.Stands) (orderly : s.Orderly) (laid : Laid s ps t)
    (row : Row false [] ps)
    (plain : t.peek.kind.isPlain = true) : Ends s (fun rest => Row false (Stmt.alternateSpans rest))
      ((nested inner.ifChain >>= fun chain => pure (Alternate.elseIf chain)).run t) := by
  have orderly' := laid.orderly orderly
  have deeper := h.ifChain { t with depth := t.depth + 1 }
    ⟨orderly'.order, orderly'.closed, orderly'.solid⟩ plain
  apply (deeper.nested.behind laid row.even).bind
  intro chain
  apply From.pure
  rintro _ ⟨qs, whole, rfl⟩
  exact row.append whole.row

/-- What follows the body of an `if`. -/
theorem alternate_views (h : inner.Stands) : Views (alternate inner) Stmt.alternateSpans := by
  intro s orderly
  have skipped : Ends s (fun _ ps => Row false [] ps) (skipNewlines.run s) :=
    views_skipNewlines s orderly
  rw [run_skipNewlines] at skipped
  obtain ⟨ps, laid, row⟩ := skipped
  rw [alternate, run_bind_ok (run_get s)]
  split
  · next here =>
      rw [State.checkPastNewlines_eq] at here
      have kind : s.skipNewlines.peek.kind = .kwElseIf := of_decide_eq_true here
      rw [run_bind_ok (run_skipNewlines s)]
      exact elseIf_ends h orderly laid row (by rw [kind]; rfl)
  · rw [run_bind_ok (run_get s)]
    split
    · next here =>
        rw [State.checkPastNewlines_eq] at here
        have kind : s.skipNewlines.peek.kind = .kwElse := of_decide_eq_true here
        rw [run_bind_ok (run_skipNewlines s)]
        apply From.advance orderly laid row (by rw [kind]; rfl)
        rintro _ t laid ⟨qs, row, rfl⟩
        have row := row.push (t := s.skipNewlines.peek) (by rw [kind]; rfl)
        rw [run_bind_ok (run_check .kwIf t)]
        split
        · next again =>
            have kind : t.peek.kind = .kwIf := of_decide_eq_true again
            exact elseIf_ends h orderly laid row.weaken (by rw [kind]; rfl)
        · apply (((body_views h) t (laid.orderly orderly)).behind laid row.even).bind
          intro body
          apply From.pure
          rintro _ ⟨rs, row', rfl⟩
          rw [Stmt.alternateSpans, Stmt.bodySpans_eq]
          exact row.weaken.append row'
    · exact ⟨[], .refl, .nil⟩

theorem ifChain_ends (h : inner.Stands) (orderly : s.Orderly) (plain : s.peek.kind.isPlain = true) :
    Ends s (fun chain => Whole chain.span (Stmt.chainSpans chain)) ((ifChain inner).run s) := by
  apply open_row orderly plain
  apply ((expression_seats h.seats).views.row orderly).bind
  intro test
  apply ((body_views h).row orderly).bind
  intro consequent
  apply ((alternate_views h).row orderly).bind
  intro rest
  apply close_whole orderly
  · intro t
    rfl
  · intro t
    rw [Stmt.chainSpans, Stmt.bodySpans_eq]
    simp

/-- A statement that starts at its keyword and ends where its rule does. -/
theorem close_stands (orderly : s.Orderly) {f : State → Stmt}
    (spans : ∀ t, (f t).span = t.spanFrom s.peek)
    (same : ∀ t, (f t).spans = .node (t.spanFrom s.peek) ts) :
    From s (Row true ts) (get >>= fun t => pure (f t)) Stands :=
  (close_whole orderly spans same).weaken (fun _ => id) fun _ _ whole => whole.stands

theorem whileLoop_ends (h : inner.Stands) (orderly : s.Orderly)
    (plain : s.peek.kind.isPlain = true) : Ends s Stands ((whileLoop inner).run s) := by
  apply open_row orderly plain
  apply ((expression_seats h.seats).views.row orderly).bind
  intro test
  apply ((body_views h).row orderly).bind
  intro stmts
  apply close_stands orderly fun t => rfl
  intro t
  rw [Stmt.spans, Stmt.bodySpans_eq]
  rfl

theorem variableLink_row (orderly : s.Orderly) (names : List String) :
    From s (Row false []) (variableLink names) fun _ => Row false [] := by
  apply ((views_eat rfl).skip orderly).bind
  intro more
  cases more with
  | false => exact row_pure rfl
  | true => exact ((views_expect rfl (by decide)).skip orderly).bind fun _ => row_pure rfl

theorem loopVariables_views : Views loopVariables fun _ => [] := by
  apply (views_expect rfl (by decide)).bind
  intro s first orderly
  exact (From.repeating (variableLink_row orderly) [first.text]).bind fun _ => row_pure rfl

theorem closeHeader_views (parenthesized : Bool) :
    Views (closeHeader parenthesized) fun _ => [] := by
  cases parenthesized with
  | true => exact (views_expect rfl (by decide)).bind fun _ _ _ => row_pure rfl
  | false => exact fun s _ => ⟨[], .refl, .nil⟩

theorem forLoop_ends (h : inner.Stands) (orderly : s.Orderly) (plain : s.peek.kind.isPlain = true) :
    Ends s Stands ((forLoop inner).run s) := by
  apply open_row orderly plain
  apply ((views_eat rfl).skip orderly).bind
  intro parenthesized
  apply (loopVariables_views.skip orderly).bind
  intro names
  apply ((views_expect rfl (by decide)).skip orderly).bind
  intro _
  apply ((expression_seats h.seats).views.row orderly).bind
  intro iterable
  apply ((closeHeader_views parenthesized).skip orderly).bind
  intro _
  apply ((body_views h).row orderly).bind
  intro stmts
  apply close_stands orderly fun t => rfl
  intro t
  rw [Stmt.spans, Stmt.bodySpans_eq]
  rfl

theorem operand?_views (h : inner.Seats) (closing : Kind) :
    Views (operand? inner closing) Expr.optionalSpans := by
  intro s orderly
  rw [operand?, run_bind_ok (run_get s)]
  split
  · exact ⟨[], .refl, .nil⟩
  · exact ((expression_seats h).views.bind fun _ _ _ => row_pure rfl) s orderly

theorem loop_ends (h : inner.Stands) (orderly : s.Orderly) (plain : s.peek.kind.isPlain = true) :
    Ends s Stands ((loop inner).run s) := by
  apply open_row orderly plain
  apply ((operand?_views h.seats .lBrace).row orderly).bind
  intro count
  apply ((body_views h).row orderly).bind
  intro stmts
  apply close_stands orderly fun t => rfl
  intro t
  rw [Stmt.spans, Stmt.bodySpans_eq]
  rfl

theorem returns_ends (h : inner.Stands) (orderly : s.Orderly) (plain : s.peek.kind.isPlain = true) :
    Ends s Stands ((returns inner).run s) := by
  apply open_row orderly plain
  apply ((operand?_views h.seats .rBrace).row orderly).bind
  intro argument
  apply close_stands orderly fun t => rfl
  intro t
  rw [Stmt.spans]
  rfl

theorem default?_views (h : inner.Seats) : Views (default? inner) Expr.optionalSpans := by
  apply (views_eat rfl).bind
  intro s assigned orderly
  cases assigned with
  | false => exact row_pure rfl
  | true =>
      have nested : Seats (nested inner.disjunction) := h.disjunction.nested
      exact (nested.views.row orderly).bind fun _ => row_pure rfl

theorem param_views (h : inner.Seats) : Views (param inner) fun p => [p.spans] := by
  intro s orderly
  rw [param, run_bind_ok (run_get s)]
  have rest : From s (Row false []) (do
      let byRef ← eat .ampersand
      let name ← expect .identifier .parameterName
      let variadic ← eat .multiply
      let default ← default? inner
      return Param.mk name.text byRef variadic default ((← get).spanFrom s.peek)) fun p =>
          Whole p.span p.spans := by
    apply ((views_eat rfl).skip orderly).bind
    intro byRef
    apply (row_expect orderly rfl (by decide)).bind
    intro name
    apply ((views_eat rfl).skip orderly).bind
    intro variadic
    apply ((default?_views h).row orderly).bind
    intro default
    exact close_whole orderly (fun t => rfl) fun t => rfl
  exact (rest [] s .refl .nil).weaken fun p _ whole => whole.row

theorem function_ends (h : inner.Stands) (orderly : s.Orderly) :
    Ends s Stands ((function inner).run s) := by
  have parameters : Views (params inner) fun params => params.map Param.spans :=
    inParens_views (param_views h.seats) (by decide)
  rw [function, run_bind_ok (run_get s)]
  have rest : From s (Row false []) (do
      let isStatic ← eat .kwStatic
      let name ← expect .identifier .functionName
      let _ ← expect .lParen .openParameters
      let params ← params inner
      skipNewlines
      let stmts ← block inner
      return Stmt.function name.text name.span params stmts isStatic ((← get).spanFrom s.peek))
          Stands := by
    apply ((views_eat rfl).skip orderly).bind
    intro isStatic
    apply (row_name orderly (by decide)).bind
    intro name
    apply ((views_expect rfl (by decide)).skip orderly).bind
    intro _
    apply (parameters.row orderly).bind
    intro params
    apply (views_skipNewlines.skip orderly).bind
    intro _
    apply ((block_views h).row orderly).bind
    intro stmts
    apply close_stands orderly fun t => rfl
    intro t
    rw [Stmt.spans, Stmt.bodySpans_eq]
    rfl
  exact rest [] s .refl .nil

theorem superClass?_views : Views superClass? fun _ => [] := by
  intro s orderly
  rw [superClass?, run_bind_ok (run_get s)]
  dsimp only
  split
  · next found =>
      have plain : s.peek.kind.isPlain = true := by
        rw [found.1]
        rfl
      have rest : From s
          (Row true []) (expect .identifier .baseClassName >>= fun name => pure (some name.text))
          fun _ => Row false [] :=
        (row_expect orderly rfl (by decide)).bind fun _ => .pure fun _ row => row.weaken
      exact open_row orderly plain rest
  · exact ⟨[], .refl, .nil⟩

theorem classDecl_ends (h : inner.Stands) (orderly : s.Orderly)
    (plain : s.peek.kind.isPlain = true) : Ends s Stands ((classDecl inner).run s) := by
  apply open_row orderly plain
  apply (row_name orderly (by decide)).bind
  intro name
  apply (superClass?_views.skip orderly).bind
  intro base
  apply (views_skipNewlines.skip orderly).bind
  intro _
  apply ((block_views h).row orderly).bind
  intro stmts
  apply close_stands orderly fun t => rfl
  intro t
  rw [Stmt.spans, Stmt.bodySpans_eq]
  rfl

theorem hotkeyBody_views (h : inner.Stands) : Views (hotkeyBody inner) fun body =>
    body.map Stmt.spans := by
  intro s orderly
  rw [hotkeyBody, run_bind_ok (run_get s)]
  split
  · exact (views_skipNewlines.bind fun _ _ orderly => (block_views h).row orderly) s orderly
  · split
    · exact statementsUntil_views h (endsBody_atEnd true) s orderly
    · next _ other =>
        rw [Bool.or_eq_true, not_or] at other
        have nonempty : s.ahead ≠ [] := by
          intro nothing
          exact other.1 (by rw [State.atEnd, nothing]; rfl)
        exact (recovered_row h orderly .refl .nil nonempty).bind fun _ => row_pure rfl

theorem hotkey_ends (h : inner.Stands) (orderly : s.Orderly) (plain : s.peek.kind.isPlain = true) :
    Ends s Stands ((hotkey inner).run s) := by
  apply open_row orderly plain
  apply ((hotkeyBody_views h).row orderly).bind
  intro stmts
  apply close_stands orderly fun t => rfl
  intro t
  rw [Stmt.spans, Stmt.bodySpans_eq]
  rfl

theorem consumeAll_eq (ts : List Token) {rest : List Token} (s : State)
    (ahead : s.ahead = ts ++ rest) :
    ts.foldl (fun s _ => s.advance) s = { s with ahead := rest, last := ts.getLastD s.last } := by
  induction ts generalizing s with
  | nil =>
      rw [List.nil_append] at ahead
      rw [← ahead]
      rfl
  | cons t ts ih =>
      have next : s.advance.ahead = ts ++ rest := by
        rw [State.advance_of_cons ahead]
        rfl
      rw [List.foldl_cons, ih s.advance next, State.advance_of_cons ahead]
      cases ts <;> rfl

/-- A directive takes the rest of its line. -/
theorem skipLine_laid {first : Token} {rest : List Token} (closed : s.Closed)
    (ahead : s.ahead = first :: rest) (kind : first.kind = .directive) :
    Laid s [line first (rest.takeWhile (·.kind != .newline))] s.advance.skipLine := by
  have split : rest.takeWhile (·.kind != .newline) ++ rest.dropWhile (·.kind != .newline) = rest :=
    List.takeWhile_append_dropWhile
  have line : s.advance.restOfLine = rest.takeWhile (·.kind != .newline) := by
    rw [State.restOfLine, State.advance_of_cons ahead]
  have next : s.advance.ahead =
      rest.takeWhile (·.kind != .newline) ++ rest.dropWhile (·.kind != .newline) := by
    rw [split, State.advance_of_cons ahead]
  have skipped : s.advance.skipLine = { s with
      ahead := rest.dropWhile (·.kind != .newline)
      last := (rest.takeWhile (·.kind != .newline)).getLastD first } := by
    rw [State.skipLine, line, consumeAll_eq _ _ next, State.advance_of_cons ahead]
  rw [skipped]
  refine ⟨?_, rfl, ?_, rfl, ?_⟩
  · rw [leaves_line, leaves_nil, List.append_nil, List.cons_append, split]
    exact ahead
  · rw [leaves_line, leaves_nil, List.append_nil]
    cases rest.takeWhile (·.kind != .newline) <;> rfl
  · have value : ∀ t ∈ rest.takeWhile (·.kind != .newline), t.kind ≠ .newline := by
      intro t member
      simpa using List.mem_takeWhile_imp member
    cases behind : rest.dropWhile (·.kind != .newline) with
    | nil => exact .line kind value rfl (.inr closed) .nil
    | cons newline more =>
        have found : newline.kind = .newline := by
          simpa using Text.dropWhile_stops (Option.mem_def.mpr (congrArg List.head? behind))
        exact .line kind value rfl (.inl found) .nil

theorem directive_ends (orderly : s.Orderly) (kind : s.peek.kind = .directive) :
    Ends s Stands (directive.run s) := by
  have going : s.ahead ≠ [] := by
    apply State.ahead_ne_nil orderly.closed
    rw [kind]
    decide
  obtain ⟨first, rest, ahead⟩ := List.exists_cons_of_ne_nil going
  have here : s.peek = first := by
    rw [State.peek, ahead]
    rfl
  rw [here] at kind
  have laid := skipLine_laid orderly.closed ahead kind
  have row : Row true [] [line first (rest.takeWhile (·.kind != .newline))] := by
    refine ⟨?_, rfl, ?_⟩
    · simp
    · simp [Braced, kind]
  have closes : From s (Row true []) (get >>= fun t => pure (.directive s.peek.text
      (String.ofList (Text.trim s.advance.lineText)) (t.spanFrom s.peek))) Stands := by
    apply close_stands orderly fun t => rfl
    intro t
    rw [Stmt.spans]
  rw [directive, run_bind_ok (run_advance s), run_bind_ok (run_get s.advance)]
  exact closes _ _ laid row

theorem simple_ends (orderly : s.Orderly) (plain : s.peek.kind.isPlain = true) {f : Span → Stmt}
    (span : ∀ a, (f a).span = a) (tree : ∀ a, (f a).spans = .node a []) :
    Ends s Stands ((advance >>= fun t => pure (f t.span)).run s) := by
  apply From.advance (P := (· = [])) orderly .refl rfl plain
  rintro _ t laid ⟨_, rfl, rfl⟩
  have covers : (f s.peek.span).span.Over (leaves [token s.peek]) := by
    rw [span]
    exact Span.over_token s.peek
  have whole : Whole (f s.peek.span).span (f s.peek.span).spans
      [node (f s.peek.span).span [token s.peek]] := by
    refine ⟨⟨_, rfl, ?_⟩, (braced_nil.push plain).node⟩
    rw [tree, span]
    rfl
  exact ⟨_, laid.node covers, whole.stands⟩

theorem statement_stands (h : inner.Stands) : Gives (statement inner) Stands := by
  intro s orderly
  rw [statement, run_bind_ok (run_get s)]
  split
  case h_1 kind =>
    apply (ifChain_ends h orderly (by rw [kind]; rfl)).bind
    intro chain
    apply From.pure
    intro ps whole
    have same : Whole (Stmt.ifs chain).span (Stmt.ifs chain).spans ps := by
      rw [Stmt.spans]
      exact whole
    exact same.stands
  case h_2 kind => exact whileLoop_ends h orderly (by rw [kind]; rfl)
  case h_3 kind => exact forLoop_ends h orderly (by rw [kind]; rfl)
  case h_4 kind => exact loop_ends h orderly (by rw [kind]; rfl)
  case h_5 kind => exact classDecl_ends h orderly (by rw [kind]; rfl)
  case h_6 kind => exact returns_ends h orderly (by rw [kind]; rfl)
  case h_7 kind =>
    exact simple_ends orderly (by rw [kind]; rfl) (fun _ => rfl) fun _ => by rw [Stmt.spans]
  case h_8 kind =>
    exact simple_ends orderly (by rw [kind]; rfl) (fun _ => rfl) fun _ => by rw [Stmt.spans]
  case h_9 kind => exact hotkey_ends h orderly (by rw [kind]; rfl)
  case h_10 kind => exact directive_ends orderly kind
  case h_11 =>
    split
    · exact function_ends h orderly
    · apply (expression_seats h.seats s orderly).bind
      intro e ps t laid sits
      exact sits.stands laid

theorem layer_stands (h : inner.Stands) : (layer inner).Stands :=
  ⟨layer_seats h.seats, fun _ orderly plain => ifChain_ends h orderly plain, statement_stands h⟩

theorem tower_stands (levels : Nat) : (tower levels).Stands := by
  induction levels with
  | zero =>
      refine ⟨tower_seats 0, ?_, ?_⟩
      · exact fun s _ _ => From.refuse _ (by decide) braced_of_nil [] s .refl rfl
      · exact fun s _ => From.refuse _ (by decide) braced_of_nil [] s .refl rfl
  | succ levels ih => exact layer_stands ih

theorem rules_stands : rules.Stands := tower_stands _

end Parser

end ScriptLens
