import ScriptLens.Proofs.Print.Lookahead
import ScriptLens.Proofs.Text.Cut

/-!
Every statement is read back from its lines: each kind of statement from its header and the bodies
behind it, all of them together by induction over the tree.
-/

namespace ScriptLens

open ParseM ScriptLens.Parser

/-- A body ends at the brace that closes it. -/
theorem ending_block :
    Ending (fun s => s.atEnd || s.check .rBrace) fun rest => headKind rest = .rBrace where
  going s nonempty starts := by
    have other : s.peek.kind ≠ .rBrace := by
      intro brace
      rw [brace] at starts
      cases starts
    simp [State.atEnd, State.check, nonempty, other]
  stopped s here := by
    cases ahead : s.ahead with
    | nil =>
        rw [ahead] at here
        cases here
    | cons t rest =>
        rw [ahead] at here
        have brace : t.kind = .rBrace := here
        simp [State.check, peek_of_cons ahead, brace]
  calm tokens here := by
    rw [here]
    rfl

/-- A script ends behind its last token. -/
theorem ending_script : Ending State.atEnd fun rest => rest = [] where
  going s nonempty _ := by simp [State.atEnd, nonempty]
  stopped s here := by simp [State.atEnd, here]
  calm tokens here := by
    rw [here]
    rfl

theorem statementsUntil_forms {stop : State → Bool} {ends : List Token → Prop}
    (h : Ending stop ends)
    {lead : List Word} (leading : Reads skipNewlines lead 0 (· ≠ .newline) fun _ => True)
    {body : List Stmt} (all : ∀ s ∈ body, FormsStmt s) :
    Forms (statementsUntil rules stop) (lead ++ Word.flat (Stmt.allLines body))
    (Stmt.bodyCost body) ends fun result => result.map Stmt.bare = body.map Stmt.bare :=
  (statements_forms h leading body all []).wrap fun _ => id

/-- A body in braces is read back. -/
def FormsBody (m : ParseM (List Stmt)) (body : List Stmt) : Prop :=
  Forms m (Stmt.blockWords body) (Stmt.bodyCost body) (fun _ => True)
    fun result => result.map Stmt.bare = body.map Stmt.bare

theorem block_forms {body : List Stmt} (all : ∀ s ∈ body, FormsStmt s) :
    FormsBody (block rules) body := by
  refine Forms.word (reads_expect .lBrace _ .openBlock) fun _ _ => ?_
  have close : ∀ result : List Stmt, result.map Stmt.bare = body.map Stmt.bare →
      Forms (expect .rBrace .closeBlock >>= fun _ => pure result) [.rBrace] 0 (fun _ => True)
        fun result => result.map Stmt.bare = body.map Stmt.bare :=
    fun result same =>
      .of_reads ((reads_expect .rBrace _ .closeBlock).wrap (g := fun _ => result) fun _ _ => same)
  have both := (statementsUntil_forms ending_block reads_skipNewline all).bind close
    (follows_token (· = .rBrace) rfl) fun _ =>
    ((returns_expect _ _).bind fun _ => returns_pure _).climbs
  rw [Nat.max_zero] at both
  exact both

theorem checkPastNewlines_of_head {s : State} {t : Token} {rest : List Token}
    (ahead : s.ahead = t :: rest) (other : t.kind ≠ .newline) (kind : Kind) :
    s.checkPastNewlines kind = decide (t.kind = kind) := by
  rw [State.checkPastNewlines, ahead, List.dropWhile_cons_of_neg (by simpa using other)]
  rfl

theorem checkPastNewlines_of_line {s : State} {line : Token} {rest : List Token} (closed : s.Closed)
    (ahead : s.ahead = line :: rest) (newline : line.kind = .newline)
    (other : headKind rest ≠ .newline)
    (kind : Kind) : s.checkPastNewlines kind = decide (headKind rest = kind) := by
  rw [State.checkPastNewlines, ahead, List.dropWhile_cons_of_pos (by simpa using newline)]
  cases rest with
  | nil =>
      have final : s.final.kind = .eof := closed
      exact decide_eq_decide.mpr (by simp [final])
  | cons t rest =>
      rw [List.dropWhile_cons_of_neg (by simpa using other)]
      rfl

/-- A rule that reads a block where a brace comes next, behind line breaks or not. -/
theorem braced_forms {body : List Stmt} (h : FormsBody (block rules) body)
    (other : State → ParseM (List Stmt)) :
    FormsBody (get >>= fun s => if s.checkPastNewlines .lBrace then skipNewlines >>= fun _ =>
      block rules else other s) body := by
  refine forms_get (fun s => s.checkPastNewlines .lBrace = true) ?_ ?_
  · intro s tokens rest closed spells ahead _
    obtain ⟨t, others, rfl, brace, _, _⟩ := Spells.of_token spells
    rw [checkPastNewlines_of_head ahead (by simp [brace])]
    exact decide_eq_true brace
  · intro s here
    have brace : Kind.lBrace ≠ .newline := by decide
    rw [here]
    exact Forms.skip reads_skipNewlines (fun _ _ => h) (follows_token (· ≠ .newline) brace)

theorem body_forms {body : List Stmt} (all : ∀ s ∈ body, FormsStmt s) :
    FormsBody (Parser.body rules) body :=
  braced_forms (block_forms all) _

theorem hotkeyBody_forms {body : List Stmt} (all : ∀ s ∈ body, FormsStmt s) :
    FormsBody (hotkeyBody rules) body := braced_forms (block_forms all) _

/-- An expression that a brace or the end of the line follows. -/
theorem expression_forms {e : Expr} (wf : e.wellFormed = true) :
    Reads (expression rules) e.words (e.cost + 1) (Closes 0) fun e' => e'.bare = e.bare :=
  expression_reads (readBack e wf).words

theorem follows_block {body : List Stmt} {next : List Token → Prop} :
    Follows (Stmt.blockWords body) next fun rest => Closes 0 (headKind rest) := by
  have brace : Closes 0 .lBrace := by decide
  exact follows_token (Closes 0) brace

theorem FormsBody.wrapSpan {α : Type} {m : ParseM (List Stmt)} {body : List Stmt}
    (h : FormsBody m body) {g : List Stmt → State → α} {good : α → Prop}
    (hg : ∀ stmts s, stmts.map Stmt.bare = body.map Stmt.bare → good (g stmts s)) :
    Forms (m >>= fun stmts => get >>= fun s => pure (g stmts s)) (Stmt.blockWords body)
    (Stmt.bodyCost body) Settled good :=
  (Forms.wrapSpan h hg).weaken (fun _ => id) fun _ _ => trivial

/-- A rule that runs as another one wherever the words stand next. -/
theorem forms_of_run {α : Type} {m : ParseM α} (rule : ParseM α) {words : List Word} {c : Nat}
    {next : List Token → Prop} {good : α → Prop} (P : State → Prop)
    (here : ∀ (s : State) (tokens rest : List Token), s.Closed → Spells s.source words tokens →
      s.ahead = tokens ++ rest → next rest → P s) (decides : ∀ s, P s → m.run s = rule.run s)
    (h : Forms rule words c next good) : Forms m words c next good := by
  intro s tokens rest closed spells ahead behind depth
  rw [decides s (here s tokens rest closed spells ahead behind)]
  exact h s tokens rest closed spells ahead behind depth

/-- The rule that a keyword, a hotkey or a directive decides. -/
def keyed : Kind → Option (ParseM Stmt)
  | .kwIf => some (ifChain rules >>= fun chain => pure (.ifs chain))
  | .kwWhile => some (whileLoop rules)
  | .kwFor => some (forLoop rules)
  | .kwLoop => some (loop rules)
  | .kwClass => some (classDecl rules)
  | .kwReturn => some (returns rules)
  | .kwBreak => some (advance >>= fun t => pure (.breaks t.span))
  | .kwContinue => some (advance >>= fun t => pure (.continues t.span))
  | .hotkey => some (hotkey rules)
  | .directive => some directive
  | _ => none

theorem statement_run (s : State) :
    (statement rules).run s = ((keyed s.peek.kind).getD (if s.atFunction then function
      rules else Parser.expression rules >>= fun e => pure (.expression e e.span))).run s := by
  rw [statement, run_bind_ok (run_get s)]
  generalize s.peek.kind = kind
  cases kind <;> rfl

theorem statement_forms {rule : ParseM Stmt} {kind : Kind} {text : String} {words : List Word}
    {c : Nat} {good : Stmt → Prop} (decides : keyed kind = some rule)
    (h : Forms rule (.token kind text :: words) c Settled good) :
    Forms (statement rules) (.token kind text :: words) c Settled good := by
  refine forms_of_run rule (·.peek.kind = kind) ?_ ?_ h
  · intro s tokens rest _ spells ahead _
    obtain ⟨t, others, rfl, rfl, _⟩ := spells.of_token
    rw [peek_of_cons ahead]
  · rintro s rfl
    rw [statement_run, decides, Option.getD_some]

/-- A statement that no keyword opens is a function or an expression. -/
theorem statement_other {s : State}
    (kind : startsExpr s.peek.kind = true ∨ s.peek.kind = .kwStatic) :
    (statement rules).run s = (if s.atFunction then function rules
      else Parser.expression rules >>= fun e => pure (.expression e e.span)).run s := by
  have none : ∀ k, startsExpr k = true ∨ k = .kwStatic → keyed k = none := by
    intro k open_
    cases k with
    | kwIf | kwWhile | kwFor | kwLoop | kwClass | kwReturn | kwBreak | kwContinue | hotkey
    | directive =>
        rcases open_ with starts | other
        · cases starts
        · cases other
    | _ => rfl
  rw [statement_run, none _ kind, Option.getD_none]

theorem whileLoop_forms {test : Expr} {body : List Stmt} (span : Span) (wf : test.wellFormed = true)
    (all : ∀ s ∈ body, FormsStmt s) : FormsStmt (.whileLoop test body span) := by
  rw [FormsStmt, Stmt.words_whileLoop, Stmt.cost]
  refine statement_forms rfl ?_
  refine Forms.word (reads_advance _ _) fun first _ => ?_
  refine Forms.after (expression_forms wf) (fun test' same => ?_) follows_block
  refine (body_forms all).wrapSpan fun stmts s same' => ?_
  rw [Stmt.bare, Stmt.bare, Stmt.allBare_eq, Stmt.allBare_eq, same, same']

theorem variables_reads (names before : List String) :
    Reads (repeating variableLink before) (names.flatMap fun n => [.comma, .token .identifier n]) 0
    (· ≠ .comma) fun result => result = names.reverse ++ before := by
  induction names generalizing before with
  | nil =>
      have stop : Reads (variableLink before) [] 0 (· ≠ .comma)
          fun result => result.2 = false ∧ result.1 = before := by
        refine (reads_eat_other .comma).skip (fun more other => ?_) fun _ => id
        rw [other]
        exact reads_pure ⟨rfl, rfl⟩
      exact Climbing.repeating_stop _ stop
  | cons n names ih =>
      have one : Reads (variableLink before) [.comma, .token .identifier n] 0 (fun _ => True)
          fun result => result.2 = true ∧ result.1 = n :: before := by
        refine (reads_eat .comma ",").word fun more eaten => ?_
        rw [eaten]
        refine (reads_expect .identifier n .loopVariable).wrap fun t text => ⟨rfl, ?_⟩
        rw [text]
      have nonempty : Heads (fun _ => True) [.comma, .token .identifier n] :=
        ⟨_, _, _, rfl, trivial⟩
      have later : ∀ b, b = n :: before → Reads (repeating variableLink b)
          (names.flatMap fun n => [.comma, .token .identifier n]) 0 (· ≠ .comma)
          fun result => result = (n :: names).reverse ++ before := by
        rintro b rfl
        simpa using ih (n :: before)
      exact Climbing.repeating_more (· = n :: before) one nonempty.ne_nil later (leads_true _)
        (Nat.le_refl 0)

theorem separated_singletons (n : String) (names : List String) :
    Stmt.nameWords (n :: names) =
      .token .identifier n :: names.flatMap fun n => [.comma, .token .identifier n] := by
  induction names generalizing n with
  | nil => rfl
  | cons m names ih =>
      have next := ih m
      simp only [Stmt.nameWords, List.map_cons, Word.separated] at next ⊢
      rw [next]
      rfl

theorem loopVariables_reads {names : List String} (nonempty : names ≠ []) :
    Reads loopVariables (Stmt.nameWords names) 0 (· ≠ .comma) fun result => result = names := by
  cases names with
  | nil => exact absurd rfl nonempty
  | cons n names =>
      rw [separated_singletons]
      refine (reads_expect .identifier n .loopVariableAfterFor).word fun t text => ?_
      refine (variables_reads names [t.text]).wrap fun result done => ?_
      rw [done, text]
      simp

theorem forLoop_forms {names : List String} {iterable : Expr} {body : List Stmt} (span : Span)
    (nonempty : names ≠ []) (wf : iterable.wellFormed = true) (all : ∀ s ∈ body, FormsStmt s) :
    FormsStmt (.forLoop names iterable body span) := by
  rw [FormsStmt, Stmt.words_forLoop, Stmt.cost, List.append_assoc]
  refine statement_forms rfl ?_
  refine Forms.word (reads_advance _ _) fun first _ => ?_
  have identifier : Kind.identifier ≠ .lParen := by decide
  have head : Heads (· = .identifier) (Stmt.nameWords names) := by
    cases names with
    | nil => exact absurd rfl nonempty
    | cons n names =>
        rw [separated_singletons]
        exact ⟨_, _, _, rfl, rfl⟩
  refine Forms.skip (reads_eat_other .lParen) (fun parenthesized other => ?_)
    ((head.append _).follows fun kind same => same ▸ identifier)
  have kwIn : Kind.kwIn ≠ .comma := by decide
  refine Forms.free (loopVariables_reads nonempty)
    (fun names' same => ?_) (follows_token (· ≠ .comma) kwIn)
  refine Forms.word (reads_expect .kwIn "in" .inKeyword) fun _ _ => ?_
  refine Forms.after (expression_forms wf) (fun iterable' same' => ?_) follows_block
  rw [other]
  have header : Reads (closeHeader false) [] 0 (fun _ => True) fun _ => True := reads_pure trivial
  refine Forms.skip header (fun _ _ => ?_) follows_any
  refine (body_forms all).wrapSpan fun stmts s same'' => ?_
  rw [Stmt.bare, Stmt.bare, Stmt.allBare_eq, Stmt.allBare_eq, same, same', same'']

theorem startsExpr_ne {kind other : Kind} (h : startsExpr kind = true)
    (ho : startsExpr other = false) : kind ≠ other := by
  rintro rfl
  rw [h] at ho
  cases ho

/-- An operand, or none where the statement ends. -/
theorem operand?_reads {closing : Kind} (hclosing : startsExpr closing = false) {e : Option Expr}
    (wf : e.all Expr.wellFormed = true) :
    Reads (operand? rules closing) (Stmt.optional e) (Stmt.optionalCost e)
      (fun k => Closes 0 k ∧ (k = .newline ∨ k = closing)) fun e' =>
      e'.map Expr.bare = e.map Expr.bare := by
  cases e with
  | none =>
      intro s tokens rest spells ahead behind depth
      cases spells
      have ahead : s.ahead = rest := ahead
      have ends : (s.atEnd || s.check .newline || s.check closing) = true := by
        rw [State.check, State.check, peek_eq ahead]
        rcases behind.2 with newline | closed
        · simp only [newline, decide_true, Bool.or_true, Bool.true_or]
        · simp only [closed, decide_true, Bool.or_true]
      refine .inl ⟨depth, none, s, ?_, ⟨ahead, rfl, rfl, rfl, rfl⟩, rfl⟩
      rw [operand?, run_bind_ok (run_get s), ends]
      rfl
  | some e =>
      have reads :=
        ((expression_forms wf).wrap (g := some) (P := fun e' => e'.map Expr.bare = some e.bare)
        fun e' same => by rw [Option.map_some, same])
      intro s tokens rest spells ahead behind depth
      have going : (s.atEnd || s.check .newline || s.check closing) = false := by
        obtain ⟨kind, text, more, words, starts⟩ := words_heads e
        rw [show Stmt.optional (some e) = e.words from rfl, words] at spells
        obtain ⟨t, others, rfl, rfl, _, _⟩ := spells.of_token
        have ahead : s.ahead = t :: (others ++ rest) := ahead
        simp [State.atEnd, State.check, ahead, peek_of_cons ahead, startsExpr_ne starts hclosing,
          startsExpr_ne starts (by decide : startsExpr .newline = false)]
      rw [operand?, run_bind_ok (run_get s), going]
      exact reads s tokens rest spells ahead behind.1 depth

theorem loop_forms {count : Option Expr} {body : List Stmt} (span : Span)
    (wf : count.all Expr.wellFormed = true) (all : ∀ s ∈ body, FormsStmt s) :
    FormsStmt (.loop count body span) := by
  rw [FormsStmt, Stmt.words_loop, Stmt.cost]
  refine statement_forms rfl ?_
  refine Forms.word (reads_advance _ _) fun first _ => ?_
  have brace : Closes 0 .lBrace ∧ (Kind.lBrace = .newline ∨ Kind.lBrace = .lBrace) := by decide
  refine Forms.after (operand?_reads rfl wf) (fun count' same => ?_)
    (follows_token (fun k => Closes 0 k ∧ (k = .newline ∨ k = .lBrace)) brace)
  refine (body_forms all).wrapSpan fun stmts s same' => ?_
  rw [Stmt.bare, Stmt.bare, Stmt.allBare_eq, Stmt.allBare_eq, same, same']

theorem Settled.headKind {rest : List Token} (h : Settled rest) : headKind rest = .newline := by
  obtain ⟨line, more, rfl, newline, _⟩ := h
  exact newline

theorem returns_forms {argument : Option Expr} (span : Span)
    (wf : argument.all Expr.wellFormed = true) : FormsStmt (.returns argument span) := by
  rw [FormsStmt, Stmt.words_returns, Stmt.cost]
  refine statement_forms rfl ?_
  refine Forms.word (reads_advance _ _) fun first _ => ?_
  have closing : startsExpr .rBrace = false := rfl
  have reads := (operand?_reads closing wf).wrapSpan
    (g := fun argument' s => Stmt.returns argument' (s.spanFrom first))
    (P := fun s => s.bare = (Stmt.returns argument span).bare)
    fun argument' s same => by rw [Stmt.bare, Stmt.bare, same]
  refine (Forms.of_reads reads).weaken (fun _ => id) ?_
  intro rest settled
  rw [settled.headKind]
  exact ⟨by decide, .inl rfl⟩

theorem breaks_forms (span : Span) : FormsStmt (.breaks span) := by
  rw [FormsStmt, Stmt.words_breaks, Stmt.cost]
  refine statement_forms rfl ?_
  have reads := (reads_advance .kwBreak "break").wrap (g := fun t => Stmt.breaks t.span)
    (P := fun s => s.bare = (Stmt.breaks span).bare) fun _ _ => by rw [Stmt.bare, Stmt.bare]
  exact (Forms.of_reads reads).weaken (fun _ => id) fun _ _ => trivial

theorem continues_forms (span : Span) : FormsStmt (.continues span) := by
  rw [FormsStmt, Stmt.words_continues, Stmt.cost]
  refine statement_forms rfl ?_
  have reads := (reads_advance .kwContinue "continue").wrap (g := fun t => Stmt.continues t.span)
    (P := fun s => s.bare = (Stmt.continues span).bare) fun _ _ => by rw [Stmt.bare, Stmt.bare]
  exact (Forms.of_reads reads).weaken (fun _ => id) fun _ _ => trivial

theorem superClass?_reads (base : Option String) :
    Reads superClass? (Stmt.baseWords base) 0 (· = .lBrace) fun base' => base' = base := by
  cases base with
  | some base =>
      refine climbing_get fun s kind text => ?_
      have extends_ : s.peek.kind = .identifier ∧ Text.sameName s.peek.text "extends" := by
        rw [kind, text]
        exact ⟨rfl, by decide⟩
      simp only [extends_, and_self, if_true]
      refine (reads_advance _ _).word fun _ _ => ?_
      refine ((reads_expect .identifier base .baseClassName).wrap fun t text => ?_).weaken
        (fun _ => id) fun _ _ => trivial
      rw [text]
  | none =>
      intro s tokens rest spells ahead behind depth
      cases spells
      have ahead : s.ahead = rest := ahead
      have other : ¬(s.peek.kind = .identifier ∧ Text.sameName s.peek.text "extends") := by
        rw [peek_eq ahead, behind]
        rintro ⟨identifier, _⟩
        cases identifier
      refine .inl ⟨depth, none, s, ?_, ⟨ahead, rfl, rfl, rfl, rfl⟩, rfl⟩
      rw [superClass?, run_bind_ok (run_get s)]
      simp only [other, if_false]
      rfl

theorem classDecl_forms {name : String} {base : Option String} {body : List Stmt}
    (nameSpan span : Span)
    (all : ∀ s ∈ body, FormsStmt s) : FormsStmt (.classDecl name nameSpan base body span) := by
  rw [FormsStmt, Stmt.words_classDecl, Stmt.cost]
  refine statement_forms rfl ?_
  refine Forms.word (reads_advance _ _) fun first _ => ?_
  refine Forms.word (reads_expect .identifier name .className) fun t text => ?_
  refine Forms.free (superClass?_reads base)
    (fun base' same => ?_) (follows_token (· = .lBrace) rfl)
  have brace : Kind.lBrace ≠ .newline := by decide
  refine Forms.skip reads_skipNewlines (fun _ _ => ?_) (follows_token (· ≠ .newline) brace)
  refine (block_forms all).wrapSpan fun stmts s same' => ?_
  rw [Stmt.bare, Stmt.bare, Stmt.allBare_eq, Stmt.allBare_eq, same, same', text]

theorem hotkey_forms {trigger : String} {body : List Stmt} (span : Span)
    (all : ∀ s ∈ body, FormsStmt s) : FormsStmt (.hotkey trigger body span) := by
  rw [FormsStmt, Stmt.words_hotkey, Stmt.cost]
  refine statement_forms rfl ?_
  refine Forms.word (reads_advance .hotkey trigger) fun first read => ?_
  refine (hotkeyBody_forms all).wrapSpan fun stmts s same => ?_
  rw [Stmt.bare, Stmt.bare, Stmt.allBare_eq, Stmt.allBare_eq, same, read.2]

/-- A mark that is there or not. -/
theorem eat_reads (kind : Kind) (text : String) (present : Bool) :
    Reads (eat kind) (if present then [.token kind text] else []) 0 (· ≠ kind) fun eaten =>
    eaten = present := by
  cases present with
  | true => exact (reads_eat kind text).weaken (fun _ => id) fun _ _ => trivial
  | false => exact reads_eat_other kind

theorem default?_reads {e : Option Expr} (wf : e.all Expr.wellFormed = true) :
    Reads (default? rules) (Param.defaultWords e) ((e.map fun e => e.costAt 1 + 1).getD 0) EndsItem
      fun e' => e'.map Expr.bare = e.map Expr.bare := by
  cases e with
  | some e =>
      refine (reads_eat .assign ":=").word fun assigned eaten => ?_
      have closes : ∀ k, EndsItem k → Closes 1 k := EndsItem.elim (by decide) (by decide)
      have value := ((readBack e wf).reads 1 (by decide)).nested
      rw [eaten, if_pos rfl, rules_disjunction]
      refine (value.wrap fun e' same => ?_).weaken (fun _ => id) closes
      rw [Option.map_some, Option.map_some, same]
  | none =>
      have other : ∀ k, EndsItem k → k ≠ .assign := EndsItem.elim (by decide) (by decide)
      refine (reads_eat_other .assign).skip (fun assigned none => ?_) other
      rw [none]
      exact reads_pure rfl

theorem param_reads {p : Param} (wf : p.wellFormed = true) :
    Reads (param rules) p.words p.cost EndsItem fun p' => p'.bare = p.bare := by
  rw [Param.wellFormed, Bool.and_eq_true] at wf
  refine climbing_get_any fun s => ?_
  have ampersand : Kind.identifier ≠ .ampersand := by decide
  have star : Leads EndsItem (· ≠ .multiply) (Param.defaultWords p.default) := by
    cases p.default with
    | some e =>
        have assign : Kind.assign ≠ .multiply := by decide
        exact assign
    | none => exact EndsItem.elim (by decide) (by decide)
  refine (eat_reads .ampersand "&" p.byRef).free (fun byRef same => ?_) ampersand
  refine (reads_expect .identifier p.name .parameterName).word fun name text => ?_
  refine (eat_reads .multiply "*" p.variadic).free (fun variadic same' => ?_) star
  refine (default?_reads wf.2).wrapSpan fun default s same'' => ?_
  rw [Param.bare, Param.bare, same, same', same'', text]

theorem param_heads (p : Param) : Heads (fun k => k ≠ .newline ∧ k ≠ .rParen) p.words := by
  unfold Param.words
  split
  · exact ⟨_, _, _, rfl, by decide⟩
  · exact ⟨_, _, _, rfl, by decide⟩

theorem function_forms {name : String} {params : List Param} {body : List Stmt} (isStatic : Bool)
    (nameSpan span : Span)
    (wf : params.all Param.wellFormed = true) (all : ∀ s ∈ body, FormsStmt s) :
    FormsStmt (.function name nameSpan params body isStatic span) := by
  rw [FormsStmt, Stmt.words_function, Stmt.cost, List.append_assoc, List.cons_append,
    List.cons_append]
  refine forms_of_run (function rules) (fun s =>
    (startsExpr s.peek.kind = true ∨ s.peek.kind = .kwStatic) ∧ s.atFunction = true) ?_ ?_ ?_
  · intro s tokens rest _ spells ahead _
    constructor
    · cases isStatic with
      | true =>
          obtain ⟨t, others, rfl, kind, _, _⟩ := Spells.of_token spells
          exact .inr (by rw [peek_of_cons ahead, kind])
      | false =>
          obtain ⟨t, others, rfl, kind, _, _⟩ := Spells.of_token spells
          exact .inl (by rw [peek_of_cons ahead, kind]; rfl)
    · have spells' :
          Spells s.source (Stmt.staticWords isStatic ++ .token .identifier name :: .lParen ::
          (Word.separated (params.map Param.words) ++ .rParen :: Stmt.blockWords body)) tokens := by
        rw [List.append_assoc] at spells
        exact spells
      exact atFunction_function spells' ahead
  · rintro s ⟨kind, declared⟩
    rw [statement_other kind, if_pos declared]
  · have reads : ∀ p ∈ params, Reads (param rules) p.words p.cost EndsItem fun p' =>
        p'.bare = p.bare :=
      fun p member => param_reads (List.all_eq_true.mp wf p member)
    refine forms_get (fun _ => True) (fun _ _ _ _ _ _ _ => trivial) fun s _ => ?_
    have identifier : Kind.identifier ≠ .kwStatic := by decide
    refine Forms.free (eat_reads .kwStatic "static" isStatic) (fun isStatic' same => ?_)
      (follows_token (· ≠ .kwStatic) identifier)
    refine Forms.word (reads_expect .identifier name .functionName) fun t text => ?_
    refine Forms.word (reads_expect .lParen "(" .openParameters) fun _ _ => ?_
    refine Forms.after (inParens_reads Param.bare Param.bare params reads (fun p _ => param_heads p)
      .closeParameters) (fun params' same' => ?_) follows_any
    have brace : Kind.lBrace ≠ .newline := by decide
    refine Forms.skip reads_skipNewlines (fun _ _ => ?_) (follows_token (· ≠ .newline) brace)
    refine (block_forms all).wrapSpan fun stmts s same'' => ?_
    rw [Stmt.bare, Stmt.bare, Stmt.allBare_eq, Stmt.allBare_eq, same, same', same'', text]

theorem expression_stmt_forms {e : Expr} (span : Span) (wf : e.wellFormed = true) :
    FormsStmt (.expression e span) := by
  rw [FormsStmt, Stmt.words_expression, Stmt.cost]
  refine forms_of_run (Parser.expression rules >>= fun e => pure (.expression e e.span)) (fun s =>
    (startsExpr s.peek.kind = true ∨ s.peek.kind = .kwStatic) ∧ s.atFunction = false) ?_ ?_ ?_
  · intro s tokens rest _ spells ahead settled
    refine ⟨.inl ?_, atFunction_expression spells ahead settled⟩
    obtain ⟨kind, text, more, words, starts⟩ := words_heads e
    rw [words] at spells
    obtain ⟨t, others, rfl, rfl, _, _⟩ := spells.of_token
    rw [peek_of_cons ahead]
    exact starts
  · rintro s ⟨kind, other⟩
    rw [statement_other kind, other]
    rfl
  · have reads := (expression_forms wf).wrap (g := fun e' => Stmt.expression e' e'.span)
      (P := fun s => s.bare = (Stmt.expression e span).bare)
      fun e' same => by rw [Stmt.bare, Stmt.bare, same]
    refine (Forms.of_reads reads).weaken (fun _ => id) ?_
    intro rest settled
    rw [settled.headKind]
    decide

/-- A text without white space at its ends is not cut. -/
theorem trim_of_ends {text : List Char} (first : text.head?.any Text.isSpace = false)
    (last : text.getLast?.any Text.isSpace = false) : Text.trim text = text := by
  rw [Text.trim, Text.trimStart, Text.dropWhile_of_head first, Text.trimEnd,
    Text.dropWhile_reverse_of_last last, List.reverse_reverse]

theorem trim_value {value : String} (h : isDirectiveValue value = true) :
    Text.trim value.toList = value.toList := by
  simp only [isDirectiveValue, Bool.and_eq_true, Bool.not_eq_true'] at h
  have none_of :
      ∀ found : Option Char, found.any (fun c => Text.isSpace c || decide (c = '\ufeff')) = false →
      found.any Text.isSpace = false := by
    rintro (_ | c) edge
    · rfl
    · exact (Bool.or_eq_false_iff.mp edge).1
  exact trim_of_ends (none_of _ h.1.2) (none_of _ h.2)

/-- The value of a directive is spelled by the tokens left on its line. -/
theorem lineText_of_value {s : State} {value : String} {part rest : List Token}
    (spells : Spells s.source (Stmt.valueWords value) part) (ahead : s.ahead = part ++ rest)
    (settled : Settled rest) : s.restOfLine = part ∧ s.lineText = value.toList := by
  obtain ⟨line, more, rfl, newline, _⟩ := settled
  have left : ∀ tokens : List Token, (∀ t ∈ tokens, t.kind ≠ .newline) →
      (tokens ++ line :: more).takeWhile (·.kind != .newline) = tokens := by
    intro tokens others
    rw [List.takeWhile_append_of_pos (by simpa using others),
      List.takeWhile_cons_of_neg (by simp [newline]), List.append_nil]
  by_cases empty : value = ""
  · rw [Stmt.valueWords, if_pos empty] at spells
    cases spells
    have none : s.restOfLine = [] := by
      rw [State.restOfLine, ahead]
      exact left [] (by simp)
    refine ⟨none, ?_⟩
    rw [State.lineText, none, empty]
    rfl
  · rw [Stmt.valueWords, if_neg empty] at spells
    cases spells with
    | @value _ part _ _ isValue nothing =>
        cases nothing
        rw [List.append_nil] at ahead ⊢
        have all : s.restOfLine = part := by
          rw [State.restOfLine, ahead]
          exact left _ fun t member => (isValue.kinds t member).1
        obtain ⟨first, last, head, tail, slice⟩ := isValue.ends
        refine ⟨all, ?_⟩
        simp only [State.lineText, all, head, tail, slice]
        rfl

theorem past_advances {part rest : List Token} (s : State) (ahead : s.ahead = part ++ rest) :
    Past s 0 rest (part.foldl (fun s _ => s.advance) s) := by
  induction part generalizing s with
  | nil => exact ⟨ahead, rfl, rfl, rfl, rfl⟩
  | cons t part ih =>
      have first : Past s 0 (part ++ rest) s.advance := past_advance ahead
      exact first.trans (ih s.advance first.ahead)

theorem directive_forms {name value : String} (span : Span) (wf : isDirectiveValue value = true) :
    FormsStmt (.directive name value span) := by
  rw [FormsStmt, Stmt.words_directive, Stmt.cost]
  refine statement_forms rfl ?_
  refine Forms.word (reads_advance _ _) fun first read => ?_
  intro s tokens rest closed spells ahead settled depth
  obtain ⟨left, text⟩ := lineText_of_value spells ahead settled
  have past : Past s 0 rest s.skipLine := by
    rw [State.skipLine, left]
    exact past_advances s ahead
  refine .inl ⟨depth, .directive first.text (String.ofList (Text.trim s.lineText))
    (s.skipLine.spanFrom first), s.skipLine, rfl, past, ?_⟩
  simp only [Stmt.bare, text, trim_value wf, String.ofList_toList, read.2]

/-- A chain of conditions is read back from the words behind its first one. -/
def FormsChain (chain : IfChain) : Prop :=
  Forms (ifChain rules) (.token .kwIf "if" :: Stmt.chainWords chain) (Stmt.chainCost chain) Settled
    fun chain' => Stmt.bareChain chain' = Stmt.bareChain chain

/-- What follows the body of an `if` is read back. -/
def FormsAlternate (rest : Alternate) : Prop :=
  Forms (alternate rules) (Stmt.alternateWords rest) (Stmt.alternateCost rest) Settled
    fun rest' => Stmt.bareAlternate rest' = Stmt.bareAlternate rest

theorem absent_forms : FormsAlternate .absent := by
  refine forms_of_run (pure .absent)
    (fun s => s.checkPastNewlines .kwElseIf = false ∧ s.checkPastNewlines .kwElse = false) ?_ ?_ ?_
  · intro s tokens rest closed spells ahead settled
    cases spells
    obtain ⟨line, more, rfl, newline, calm⟩ := settled
    have other : ∀ kind, isCalm kind = false → headKind more ≠ kind := by
      rintro kind uncalm rfl
      rw [calm] at uncalm
      cases uncalm
    have past := checkPastNewlines_of_line closed ahead newline (other .newline rfl)
    rw [past, past]
    exact ⟨decide_eq_false (other .kwElseIf rfl), decide_eq_false (other .kwElse rfl)⟩
  · rintro s ⟨noElseIf, noElse⟩
    rw [alternate, run_bind_ok (run_get s), noElseIf, if_neg Bool.false_ne_true,
      run_bind_ok (run_get s), noElse, if_neg Bool.false_ne_true]
  · have none : Reads (pure Alternate.absent) [] 0 (fun _ => True)
        fun rest => Stmt.bareAlternate rest = Stmt.bareAlternate .absent := reads_pure rfl
    exact (Forms.of_reads none).weaken (fun _ => id) fun _ _ => trivial

/-- An `else` on the line behind a body. -/
theorem else_forms {words : List Word} {c : Nat} {good : Alternate → Prop}
    (h : Forms (check .kwIf >>= fun more =>
      if more then nested rules.ifChain >>= fun next => pure (.elseIf next)
      else body rules >>= fun stmts => pure (.otherwise stmts)) words c Settled good) :
    Forms (alternate rules) (.newline :: .token .kwElse "else" :: words) c Settled good := by
  refine forms_of_run (skipNewlines >>= fun _ => advance >>= fun _ => check .kwIf >>= fun more =>
      if more then nested rules.ifChain >>= fun next => pure (.elseIf next)
      else body rules >>= fun stmts => pure (.otherwise stmts))
    (fun s => s.checkPastNewlines .kwElseIf = false ∧ s.checkPastNewlines .kwElse = true) ?_ ?_ ?_
  · intro s tokens rest closed spells ahead settled
    obtain ⟨line, others, rfl, newline, _, spells⟩ := Spells.of_token spells
    obtain ⟨mark, others, rfl, kind, _, _⟩ := spells.of_token
    have visible : headKind (mark :: (others ++ rest)) ≠ .newline := by
      rw [headKind_cons, kind]
      decide
    have cut : s.ahead = line :: (mark :: (others ++ rest)) := ahead
    have past := checkPastNewlines_of_line closed cut newline visible
    rw [past, past, headKind_cons, kind]
    exact ⟨rfl, rfl⟩
  · rintro s ⟨noElseIf, isElse⟩
    rw [alternate, run_bind_ok (run_get s), noElseIf, if_neg Bool.false_ne_true,
      run_bind_ok (run_get s), isElse, if_pos rfl]
  · have mark : Kind.kwElse ≠ .newline := by decide
    refine Forms.free reads_skipNewline (fun _ _ => ?_) (follows_token (· ≠ .newline) mark)
    exact Forms.word (reads_advance .kwElse "else") fun _ _ => h

theorem elseIf_forms {next : IfChain} (h : FormsChain next) : FormsAlternate (.elseIf next) := by
  rw [FormsAlternate, Stmt.alternateWords_elseIf, Stmt.alternateCost]
  refine else_forms ?_
  refine Forms.skip (reads_check .kwIf) (fun more here => ?_) (follows_token (· = .kwIf) rfl)
  rw [here, if_pos rfl, rules_ifChain]
  refine (Forms.nested h).wrap fun chain same => ?_
  rw [Stmt.bareAlternate, Stmt.bareAlternate, same]

theorem otherwise_forms {body : List Stmt} (all : ∀ s ∈ body, FormsStmt s) :
    FormsAlternate (.otherwise body) := by
  rw [FormsAlternate, Stmt.alternateWords_otherwise, Stmt.alternateCost]
  refine else_forms ?_
  have brace : Kind.lBrace ≠ .kwIf := by decide
  refine Forms.skip (reads_check_other .kwIf)
    (fun more other => ?_) (follows_token (· ≠ .kwIf) brace)
  rw [other, if_neg Bool.false_ne_true]
  refine (Forms.wrap (body_forms all) fun stmts same => ?_).weaken (fun _ => id) fun _ _ => trivial
  rw [Stmt.bareAlternate, Stmt.bareAlternate, Stmt.allBare_eq, Stmt.allBare_eq, same]

theorem chain_forms {test : Expr} {consequent : List Stmt} {rest : Alternate} (span : Span)
    (wf : test.wellFormed = true) (all : ∀ s ∈ consequent, FormsStmt s)
    (behind : FormsAlternate rest) : FormsChain (.mk test consequent rest span) := by
  rw [FormsChain, Stmt.chainWords, Stmt.chainCost, List.append_assoc]
  refine Forms.word (reads_advance .kwIf "if") fun first _ => ?_
  have brace : Closes 0 .lBrace := by decide
  refine Forms.after (expression_forms wf) (fun test' same => ?_) (follows_token (Closes 0) brace)
  refine Forms.bind (body_forms all) (fun stmts same' => ?_) follows_any fun stmts => ?_
  · refine Forms.wrapSpan behind fun rest' s same'' => ?_
    rw [Stmt.bareChain, Stmt.bareChain, Stmt.allBare_eq, Stmt.allBare_eq, same, same', same'']
  · exact ((alternate_returns rules_returns).bind fun _ => returns_get.bind fun _ =>
      returns_pure _).climbs

theorem ifs_forms {chain : IfChain} (h : FormsChain chain) : FormsStmt (.ifs chain) := by
  rw [FormsStmt, Stmt.words_ifs, Stmt.cost]
  refine statement_forms rfl ?_
  refine Forms.wrap h fun chain' same => ?_
  rw [Stmt.bare, Stmt.bare, same]

/-- Every statement that can be printed is read back from its words. -/
theorem formsStmt (s : Stmt) : s.wellFormed = true → FormsStmt s := by
  have inside : ∀ {body : List Stmt}, (∀ s ∈ body, s.wellFormed = true → FormsStmt s) →
      Stmt.allWellFormed body = true → ∀ s ∈ body, FormsStmt s :=
    fun all wf s member => all s member (Stmt.mem_wellFormed wf member)
  refine Stmt.tree_induction (fun s => s.wellFormed = true → FormsStmt s)
    (fun chain => Stmt.chainWellFormed chain = true → FormsChain chain)
    (fun rest => Stmt.alternateWellFormed rest = true → FormsAlternate rest) ?ifs ?whileLoop
    ?forLoop ?loop ?classDecl ?function ?returns ?breaks ?continues ?hotkey ?directive ?expression
    ?mk ?absent ?elseIf ?otherwise s
  all_goals simp only [Stmt.wellFormed, Stmt.chainWellFormed, Stmt.alternateWellFormed,
    Bool.and_eq_true]
  case ifs => exact fun chain h wf => ifs_forms (h wf)
  case whileLoop => exact fun test body span all wf => whileLoop_forms span wf.1 (inside all wf.2)
  case forLoop =>
    exact fun names iterable body span all wf =>
      forLoop_forms span (of_decide_eq_true wf.1.1.1) wf.1.2 (inside all wf.2)
  case loop => exact fun count body span all wf => loop_forms span wf.1 (inside all wf.2)
  case classDecl =>
    exact fun name nameSpan base body span all wf => classDecl_forms nameSpan span (inside all wf.2)
  case function =>
    exact fun name nameSpan params body isStatic span all wf =>
      function_forms isStatic nameSpan span wf.1.2 (inside all wf.2)
  case returns => exact fun argument span wf => returns_forms span wf
  case breaks => exact fun span _ => breaks_forms span
  case continues => exact fun span _ => continues_forms span
  case hotkey => exact fun trigger body span all wf => hotkey_forms span (inside all wf.2)
  case directive => exact fun name value span wf => directive_forms span wf.2
  case expression => exact fun e span wf => expression_stmt_forms span wf
  case mk =>
    exact fun test consequent rest span all behind wf =>
      chain_forms span wf.1.1 (inside all wf.1.2) (behind wf.2)
  case absent => exact fun _ => absent_forms
  case elseIf => exact fun next h wf => elseIf_forms (h wf)
  case otherwise => exact fun body all wf => otherwise_forms (inside all wf)

end ScriptLens
