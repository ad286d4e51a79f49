import ScriptLens.Proofs.Parser.Causes
import ScriptLens.Proofs.Parser.Written
import ScriptLens.Proofs.Padding.Tokens

/-!
The look-ahead for a function declaration against the rule that reads one. The look-ahead only
counts parentheses; the rule reads parameters with expressions as defaults. Parentheses match in
whatever an expression consumes, so both come to the same closing parenthesis, and the brace that
the look-ahead saw stands behind it.
-/

namespace ScriptLens

open ParseM ScriptLens.Parser

/-- As many parentheses close as open, and up to no place more than have opened. -/
structure EvenParens (ts : List Token) : Prop where
  even : ts.countP (·.kind = .rParen) = ts.countP (·.kind = .lParen)
  within : ∀ front, front <+: ts → front.countP (·.kind = .rParen) ≤ front.countP (·.kind = .lParen)

namespace EvenParens

variable {ts us : List Token} {t opening closing : Token}

theorem nil : EvenParens [] := by
  refine ⟨rfl, fun front before => ?_⟩
  rw [List.prefix_nil.mp before]
  exact Nat.le_refl 0

theorem plain (opens : t.kind ≠ .lParen) (closes : t.kind ≠ .rParen) : EvenParens [t] := by
  refine ⟨by simp [opens, closes], fun front before => ?_⟩
  rcases List.prefix_cons_iff.mp before with rfl | ⟨rest, rfl, nothing⟩
  · exact Nat.le_refl 0
  · simp [List.prefix_nil.mp nothing, opens, closes]

theorem append (h : EvenParens ts) (h' : EvenParens us) : EvenParens (ts ++ us) := by
  refine ⟨by rw [List.countP_append, List.countP_append, h.even, h'.even], fun front before => ?_⟩
  rcases List.prefix_or_prefix_of_prefix before (List.prefix_append ts us) with inside | ⟨rest, rfl⟩
  · exact h.within front inside
  · have later := h'.within rest ((List.prefix_append_right_inj ts).mp before)
    rw [List.countP_append, List.countP_append, h.even]
    exact Nat.add_le_add_left later _

theorem group (opens : opening.kind = .lParen) (closes : closing.kind = .rParen)
    (h : EvenParens ts) : EvenParens (opening :: (ts ++ [closing])) := by
  refine ⟨by simp [List.countP_append, opens, closes, h.even], fun front before => ?_⟩
  rcases List.prefix_cons_iff.mp before with rfl | ⟨rest, rfl, inside⟩
  · exact Nat.le_refl 0
  rcases List.prefix_concat_iff.mp inside with rfl | within
  · simp [List.countP_append, opens, closes, h.even]
  · have fewer := h.within rest within
    simp only [List.countP_cons, opens, decide_true, if_true]
    simpa using Nat.le_succ_of_le fewer

end EvenParens

theorem Matched.even {ts : List Token} (h : Matched ts) : EvenParens ts := by
  induction h with
  | nil => exact .nil
  | plain other =>
      simp only [List.mem_cons, not_or] at other
      exact .plain other.1 other.2.1
  | group opens closes _ ih => exact .group opens closes ih
  | append _ _ first second => exact first.append second

/-- The look-ahead passes over tokens in which parentheses match. -/
theorem Matched.pastParens {ts : List Token} (h : Matched ts) {opened : Nat}
    {rest after : List Token} (past : Token.pastParens (opened + 1) (ts ++ rest) = some after) :
    Token.pastParens (opened + 1) rest = some after := by
  induction h generalizing opened rest with
  | nil => exact past
  | @plain t other =>
      rw [List.singleton_append, Token.pastParens] at past
      revert other past
      generalize t.kind = kind
      cases kind
      all_goals simp
  | @group opening closing inside opens closes _ ih =>
      have shape :
        opening :: (inside ++ [closing]) ++ rest = opening :: (inside ++ closing :: rest) := by simp
      rw [shape, Token.pastParens, opens] at past
      have behind := ih past
      rw [Token.pastParens, closes] at behind
      simpa using behind
  | append _ _ first second =>
      rw [List.append_assoc] at past
      exact second (first past)

namespace Parser

variable {s : State}

/-- Behind `[static] name (`. -/
def State.atParams (s : State) : State :=
  (if s.check .kwStatic then s.advance else s).advance.advance

/-- What the look-ahead for a declaration has seen. -/
structure State.Foresees (s : State) (name opening : Token) (after : List Token) : Prop where
  head : (if s.check .kwStatic then s.advance else s).ahead = name :: opening :: s.atParams.ahead
  named : name.kind = .identifier
  opens : opening.kind = .lParen
  past : Token.pastParens 1 s.atParams.ahead = some after
  brace : ∃ t rest, after.dropWhile (·.kind = .newline) = t :: rest ∧ t.kind = .lBrace

theorem State.atFunction_foresees (starts : s.atFunction = true) : ∃ name opening after,
    s.Foresees name opening after := by
  have declared {tokens : List Token}
      (heads : Token.headsDeclaration (· = .newline) tokens = true) :
      ∃ name opening rest after, tokens = name :: opening :: rest ∧
      name.kind = .identifier ∧ opening.kind = .lParen ∧ Token.pastParens 1 rest = some after ∧
        ∃ t more, after.dropWhile (·.kind = .newline) = t :: more ∧ t.kind = .lBrace := by
    unfold Token.headsDeclaration at heads
    split at heads
    · next name opening rest =>
        simp only [Bool.and_eq_true, decide_eq_true_eq] at heads
        obtain ⟨⟨named, opens⟩, past⟩ := heads
        split at past
        · cases past
        · next after found =>
            split at past
            · cases past
            · next t more behind => exact ⟨name, opening, rest, after, rfl, named, opens, found, t,
                more, behind, of_decide_eq_true past⟩
    · cases heads
  have word : Token.headsDeclaration (· = .newline)
      (if s.check .kwStatic then s.advance else s).ahead = true := by
    rw [State.atFunction] at starts
    cases ahead : s.ahead with
    | nil =>
        rw [ahead] at starts
        cases starts
    | cons first rest =>
        rw [ahead] at starts
        have here : s.check .kwStatic =
          decide (first.kind = .kwStatic) := by rw [State.check, State.peek, ahead]; rfl
        rw [here]
        by_cases isStatic : first.kind = .kwStatic
        · simpa [isStatic, State.advance_of_cons ahead] using starts
        · simpa [isStatic, ahead] using starts
  obtain ⟨name, opening, rest, after, head, named, opens, past, brace⟩ := declared word
  have behind : s.atParams.ahead = rest := by
    rw [State.atParams, State.advance_of_cons head, @State.advance_of_cons _ opening rest rfl]
  exact ⟨name, opening, after, by rw [behind]; exact head, named,
    opens, by rw [behind]; exact past, brace⟩

/-- The rule for declarations from the parameters on. -/
def functionTail (first name : Token) (isStatic : Bool) : ParseM Stmt := do
  let ps ← params rules
  skipNewlines
  let stmts ← block rules
  return .function name.text name.span ps stmts isStatic ((← get).spanFrom first)

/-- The rule reads parameters where the look-ahead counted. -/
theorem State.Foresees.function_run {name opening : Token} {after : List Token}
    (h : s.Foresees name opening after) :
    (function rules).run s = (functionTail s.peek name (s.check .kwStatic)).run s.atParams := by
  generalize word : (if s.check .kwStatic then s.advance else s) = w
  have head := h.head
  rw [word] at head
  have isStatic : (eat .kwStatic).run s = (.ok (s.check .kwStatic), w) := by
    rw [run_eat, ← word]
    cases s.check .kwStatic <;> rfl
  have first : w.peek = name := by
    rw [State.peek, head]
    rfl
  have named : (expect .identifier .functionName).run w = (.ok name, w.advance) := by
    have here : w.check .identifier = true := by
      rw [State.check, first]
      exact decide_eq_true h.named
    rw [run_expect, if_pos here, first]
  have opens :
      (expect .lParen .openParameters).run w.advance = (.ok w.advance.peek, s.atParams) := by
    have here : w.advance.check .lParen = true := by
      rw [State.check, State.peek, State.advance_of_cons head]
      exact decide_eq_true h.opens
    rw [run_expect, if_pos here, State.atParams, word]
  rw [function, run_bind_ok (run_get s), run_bind_ok isStatic, run_bind_ok named, run_bind_ok opens]
  rfl

/-- A declaration that fails does so in its parameters or in the block behind them. -/
theorem State.Foresees.function_error {name opening : Token} {after : List Token} {t : State}
    {e : ParseError}
    (h : s.Foresees name opening after) (run : (function rules).run s = (.error e, t)) :
    (params rules).run s.atParams = (.error e, t) ∨ ∃ ps u, (params rules).run s.atParams =
      (.ok ps, u) ∧ (block rules).run u.skipNewlines = (.error e, t) := by
  rw [h.function_run, functionTail] at run
  rcases run_bind_eq_error run with list | ⟨ps, u, read, run⟩
  · exact .inl list
  refine .inr ⟨ps, u, read, ?_⟩
  rw [run_bind_ok (run_skipNewlines u)] at run
  rcases run_bind_eq_error run with inside | ⟨stmts, v, _, run⟩
  · exact inside
  · cases run

/-- Parameters end at the parenthesis that the look-ahead comes to. -/
theorem params_closing (closed : s.Closed) {after : List Token}
    (past : Token.pastParens 1 s.ahead = some after)
    {ps : List Param} {t : State} (run : (params rules).run s = (.ok ps, t)) :
    ∃ inside closing, s.ahead = inside ++ closing :: after ∧ closing.kind = .rParen ∧
    EvenParens inside ∧ t.ahead = after := by
  have items : ∀ s : State, s.Closed → Takes s (param rules) fun p ts _ =>
      Wrote p ts ∧ Matched ts :=
    fun s closed => param_wrote (tower_writes s.ahead _) closed
  obtain ⟨us, taken, inside, closing, rfl, closes, matched, _⟩ :=
    inParens_among items closed _ ps t run
  have ahead : s.ahead = inside ++ closing :: t.ahead := by
    rw [taken.ahead]
    simp
  rw [ahead] at past
  have behind := matched.pastParens past
  rw [Token.pastParens, closes] at behind
  have same : t.ahead = after := by simpa using behind
  exact ⟨inside, closing, same ▸ ahead, closes, matched.even, same⟩

/-- What the rule for declarations makes of a state at which the look-ahead has seen one. -/
structure Declares (s : State) (name opening : Token) (after : List Token) :
    Prop extends s.Foresees name opening after where
  runs : (function rules).run s = (functionTail s.peek name (s.check .kwStatic)).run s.atParams
  /-- The parameters, where they can be read, end with the very parenthesis that the look-ahead
  found. -/
  closes : ∀ ps t, (params rules).run s.atParams = (.ok ps, t) → ∃ inside closing,
    s.atParams.ahead = inside ++ closing :: after ∧ closing.kind = .rParen ∧ EvenParens inside ∧
    t.ahead = after
  /-- A brace is next, and so the block behind them lacks no more than its closing brace. -/
  behind : ∀ ps t, (params rules).run s.atParams = (.ok ps, t) →
    t.skipNewlines.peek.kind = .lBrace ∧
    ∀ e u, (block rules).run t.skipNewlines = (.error e, u) → e.cause = .expected .closeBlock
  fails : ∀ e t, (function rules).run s = (.error e, t) →
    (params rules).run s.atParams = (.error e, t) ∧ e.cause ∈ parameterCauses ∨
      e.cause = .expected .closeBlock ∧ ∃ ps u, (params rules).run s.atParams = (.ok ps, u) ∧
        (block rules).run u.skipNewlines = (.error e, t)

/-- Where the look-ahead sees a declaration, the rule finds its parameters closed where the
look-ahead did and a brace behind them, and fails for nothing else than what is wrong with the
parameters or a missing closing brace. In every expression that is read parentheses come in
pairs. -/
theorem declaration_foreseen (s : State) (closed : s.Closed) :
    (∀ e t, (expression rules).run s = (.ok e, t) → ∃ ts, s.ahead = ts ++ t.ahead ∧ EvenParens ts) ∧
      (s.atFunction = true → ∃ name opening after, Declares s name opening after) := by
  constructor
  · intro e t run
    obtain ⟨ts, taken, phrase⟩ := expression_phrases (tower_phrases _) s closed e t run
    exact ⟨ts, taken.ahead, phrase.matched.even⟩
  intro starts
  obtain ⟨name, opening, after, seen⟩ := State.atFunction_foresees starts
  have closed' : s.atParams.Closed := by
    unfold State.atParams
    split
    · exact closed.advance.advance.advance
    · exact closed.advance.advance
  have closes : ∀ ps t, (params rules).run s.atParams = (.ok ps, t) → ∃ inside closing,
      s.atParams.ahead = inside ++ closing :: after ∧ closing.kind = .rParen ∧ EvenParens inside ∧
      t.ahead = after :=
    fun _ _ run => params_closing closed' seen.past run
  have opens : ∀ ps t, (params rules).run s.atParams = (.ok ps, t) →
      t.skipNewlines.peek.kind = .lBrace := by
    intro ps t run
    obtain ⟨_, _, _, _, _, same⟩ := closes ps t run
    obtain ⟨brace, rest, next, kind⟩ := seen.brace
    rw [State.peek, State.skipNewlines_ahead, same, next]
    exact kind
  refine ⟨name, opening, after, seen, seen.function_run, closes,
    fun ps t run => ⟨opens ps t run, fun e u => block_error (opens ps t run)⟩, ?_⟩
  intro e t run
  rcases seen.function_error run with list | ⟨ps, u, read, inside⟩
  · exact .inl ⟨list, params_raises (tower_raises _) s.atParams e t list⟩
  · exact .inr ⟨block_error (opens ps u read) inside, ps, u, read, inside⟩

/-- A default with a line break inside its parentheses, and a block that is never closed. -/
theorem declaration_foreseen_default : ∃ s : State, s.Closed ∧ s.atFunction = true ∧
    ∃ ps t, (params rules).run s.atParams = (.ok ps, t) ∧ t.skipNewlines.peek.kind = .lBrace ∧
      ∃ e u, (function rules).run s = (.error e, u) ∧ e.cause = .expected .closeBlock := by
  generalize shape : State.ofTokens "f(a, b := g(\n(1), 2)) \n\x7b x"
    (scan "f(a, b := g(\n(1), 2)) \n\x7b x").tokens = s
  have closed : s.Closed := shape ▸ (State.cursor_ofTokens _ _).final
  have starts : s.atFunction = true := by
    rw [← shape]
    decide +kernel
  have reads : ((params rules).run s.atParams).1.toBool = true := by
    rw [← shape]
    decide +kernel
  have breaks : ((function rules).run s).1.toBool = false := by
    rw [← shape]
    decide +kernel
  obtain ⟨name, opening, after, declares⟩ := (declaration_foreseen s closed).2 starts
  cases list : (params rules).run s.atParams with
  | mk result t =>
      rw [list] at reads
      cases result with
      | error => cases reads
      | ok ps =>
          refine ⟨s, closed, starts, ps, t, list, (declares.behind ps t list).1, ?_⟩
          cases whole : (function rules).run s with
          | mk result u =>
              rw [whole] at breaks
              cases result with
              | ok => cases breaks
              | error e =>
                  refine ⟨e, u, rfl, ?_⟩
                  rcases declares.fails e u whole with ⟨failed, _⟩ | ⟨cause, _⟩
                  · cases list.symm.trans failed
                  · exact cause

end Parser

end ScriptLens
