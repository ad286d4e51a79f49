import ScriptLens.Proofs.Parser.Levels
import ScriptLens.Proofs.Parser.Phrases
import ScriptLens.Proofs.Parser.Total
import ScriptLens.Proofs.Spans.Statements
import ScriptLens.Syntax.Walk

/-!
Where the declarations of a tree are written among the tokens. Behind a dot no statement starts with
a name: a statement that was read does not end with a dot, and where recovery leaves one the next
token is no name. So every function is found with its name in front of its parenthesis, no dot
before it, and its parameters behind.
-/

namespace ScriptLens

open ParseM ScriptLens.Parser

/-- A parameter's name, with what stands between it and the opening parenthesis and the token behind
it. -/
structure Param.At (p : Param) (inside : List Token) (name next : Token) : Prop where
  matched : Matched inside
  kind : name.kind = .identifier
  text : name.text = p.name
  apart : next.kind ≠ .lParen
  before : ∀ t ∈ inside.getLast?, t.kind.separates = true ∨ t.kind = .ampersand
  start : if p.byRef then ∃ mark, inside.getLast? = some mark ∧ mark.kind = .ampersand ∧
    p.span.start = mark.start
    else p.span.start = name.start

/-- The parameter is written behind an opening parenthesis. -/
def Param.Written (back : List Token) (p : Param) : Prop :=
  ∃ inside name next rest, back = inside ++ name :: next :: rest ∧ p.At inside name next

/-- A function's name and its parenthesis among all tokens. -/
structure FunctionHead (all : List Token) (name : String) (nameSpan : Span) (params : List Param)
    (front : List Token) (t paren : Token) (back : List Token) : Prop where
  place : all = front ++ t :: paren :: back
  kind : t.kind = .identifier
  text : t.text = name
  span : t.span = nameSpan
  opening : paren.kind = .lParen
  undotted : ∀ u ∈ front.getLast?, u.kind ≠ .dot
  declares : Token.headsDeclaration (· = .newline) (t :: paren :: back) = true
  params : ∀ p ∈ params, p.Written back

/-- A class's name behind its keyword among all tokens. -/
structure ClassHead (all : List Token) (name : String) (nameSpan : Span) (front : List Token)
    (word t next : Token) (back : List Token) : Prop where
  place : all = front ++ word :: t :: next :: back
  word : word.kind = .kwClass
  kind : t.kind = .identifier
  text : t.text = name
  span : t.span = nameSpan
  apart : next.kind ≠ .lParen

namespace Stmt

/-- A declaration has its head among all tokens. -/
def Written (all : List Token) : Stmt → Prop
  | .function name nameSpan params _ _ _ => ∃ front t paren back,
      FunctionHead all name nameSpan params front t paren back
  | .classDecl name nameSpan _ _ _ => ∃ front word t next back,
      ClassHead all name nameSpan front word t next back
  | _ => True

/-- The declarations in some statement lists have their heads among all tokens. -/
def AllWritten (all : List Token) (lists : List (List Stmt)) : Prop :=
  ∀ list ∈ lists, ∀ stmt ∈ list, stmt.Written all

variable {all : List Token}

theorem AllWritten.append {a b : List (List Stmt)} (ha : AllWritten all a) (hb : AllWritten all b) :
    AllWritten all (a ++ b) := by
  intro list member
  rcases List.mem_append.mp member with first | second
  · exact ha list first
  · exact hb list second

theorem allWritten_nil : AllWritten all [] := by
  intro list member
  cases member

/-- The statement and all inside it. -/
structure Settled (all : List Token) (stmt : Stmt) : Prop where
  here : stmt.Written all
  inside : AllWritten all (listsOf stmt)

theorem allWritten_lists {body : List Stmt} (h : ∀ stmt ∈ body, stmt.Settled all) :
    AllWritten all (lists body) := by
  have below : AllWritten all (listsInside body) := by
    induction body with
    | nil => exact allWritten_nil
    | cons stmt body ih =>
        rw [listsInside]
        exact (h stmt List.mem_cons_self).inside.append
          (ih fun t member => h t (List.mem_cons_of_mem stmt member))
  intro list member
  rcases List.mem_cons.mp member with rfl | deeper
  · exact fun stmt inside => (h stmt inside).here
  · exact below list deeper

end Stmt

namespace Parser

open Stmt

variable {all : List Token} {s t : State} {ts : List Token} {inner : Level}

/-- The tokens ahead are the last of all tokens. -/
def Inside (all : List Token) (s : State) : Prop := ∃ front, all = front ++ s.ahead

/-- No name comes next behind a dot. -/
def Ready (all : List Token) (s : State) : Prop :=
  ∃ front, all = front ++ s.ahead ∧
    (s.peek.kind = .identifier → ∀ t ∈ front.getLast?, t.kind ≠ .dot)

theorem Ready.inside (h : Ready all s) : Inside all s := by
  obtain ⟨front, place, _⟩ := h
  exact ⟨front, place⟩

theorem Inside.taken (h : Inside all s) (taken : Taken s ts t) : Inside all t := by
  obtain ⟨front, rfl⟩ := h
  exact ⟨front ++ ts, by rw [taken.ahead, List.append_assoc]⟩

/-- Behind a token that is no dot. -/
theorem Inside.ready {front : List Token} {last : Token} (h : Inside all s)
    (taken : Taken s (front ++ [last]) t) (other : last.kind ≠ .dot) : Ready all t := by
  obtain ⟨before, rfl⟩ := h
  refine ⟨before ++ (front ++ [last]), by rw [taken.ahead]; simp, ?_⟩
  intro _ u member
  rw [← List.append_assoc, List.getLast?_concat] at member
  cases member
  exact other

theorem Inside.ready_one {token : Token} (h : Inside all s) (taken : Taken s [token] t)
    (other : token.kind ≠ .dot) : Ready all t := by
  rw [← List.nil_append [token]] at taken
  exact h.ready taken other

theorem Inside.phrase (h : Inside all s) (taken : Taken s ts t) (phrase : Phrase ts) :
    Ready all t := by
  obtain ⟨front, last, rfl, other⟩ := phrase.ends
  exact h.ready taken other

theorem Inside.other (h : Inside all s) (kind : s.peek.kind ≠ .identifier) : Ready all s := by
  obtain ⟨front, place⟩ := h
  exact ⟨front, place, fun same => absurd same kind⟩

theorem Ready.skip (h : Ready all s) (taken : Taken s ts t)
    (newlines : ∀ t ∈ ts, t.kind = .newline) : Ready all t := by
  cases final : ts.getLast? with
  | none =>
      rw [List.getLast?_eq_none_iff.mp final] at taken
      obtain ⟨front, place, other⟩ := h
      have ahead : s.ahead = t.ahead := taken.ahead
      have peek : t.peek = s.peek := by rw [State.peek, State.peek, ahead, taken.final]
      exact ⟨front, ahead ▸ place, peek ▸ other⟩
  | some last =>
      obtain ⟨front, rfl⟩ := List.getLast?_eq_some_iff.mp final
      exact h.inside.ready taken (by rw [newlines last (by simp)]; decide)

/-- Recovery stops at the end, behind a line break or before a keyword. -/
theorem Inside.synchronize (h : Inside all s) (closed : s.Closed) :
    ∃ ts, Taken s ts s.synchronize ∧ Ready all s.synchronize := by
  have go (rest : List Token) (u : State) (ts : List Token) (taken : Taken s (ts ++ [u.last]) u)
      (ahead : u.ahead = rest) :
      ∃ ts, Taken s ts (State.synchronize.go rest u) ∧ Ready all (State.synchronize.go rest u) := by
    induction rest generalizing u ts with
    | nil =>
        have eof : u.peek.kind ≠ .identifier := by
          have final : u.final.kind = .eof := taken.closed closed
          rw [State.peek, ahead]
          simp [final]
        exact ⟨_, taken, (h.taken taken).other eof⟩
    | cons next rest ih =>
        have here : u.peek = next := by rw [State.peek, ahead]; rfl
        have further := taken.trans (Taken.advance (by simp [ahead]))
        have moved : u.advance.last = u.peek := by rw [State.advance_of_cons ahead, here]
        have stops (kind : next.kind ≠ .identifier) : ∃ us, Taken s us u ∧ Ready all u :=
          ⟨_, taken, (h.taken taken).other (here ▸ kind)⟩
        rw [State.synchronize.go]
        split
        · next newline => exact ⟨_, taken, h.ready taken (by rw [newline]; decide)⟩
        · split
          case h_6 => exact ih u.advance _ (moved ▸ further) (by rw [State.advance_of_cons ahead])
          all_goals
            next kind => exact stops (by rw [kind]; decide)
  cases ahead : s.ahead with
  | nil =>
      have still : s.synchronize = s := by
        rw [State.synchronize, State.advance_of_nil ahead, ahead]
        rfl
      have eof : s.peek.kind ≠ .identifier := by
        have final : s.final.kind = .eof := closed
        rw [State.peek, ahead]
        simp [final]
      rw [still]
      exact ⟨[], .refl, h.other eof⟩
  | cons first rest =>
      have here :
        s.advance.last = s.peek := by rw [State.advance_of_cons ahead, State.peek, ahead]; rfl
      exact go s.advance.ahead s.advance [] (here ▸ Taken.advance (by simp [ahead])) rfl

/-- The rule gives statements whose declarations are written, and leaves the state ready for
more. -/
abbrev Bodies (all : List Token) (m : ParseM (List Stmt)) : Prop :=
  ∀ s : State, s.Closed → Ready all s → Takes s m fun body _ t =>
    Ready all t ∧ AllWritten all (lists body)

end Parser

/-- The rules of a level read expressions, and statements whose declarations are written. -/
structure Level.Writes (all : List Token) (inner : Level) : Prop where
  returns : inner.Returns
  phrases : inner.Phrases
  ifChain : ∀ s : State, s.Closed → Parser.Inside all s → Takes s inner.ifChain fun chain _ t =>
    Parser.Ready all t ∧ Stmt.AllWritten all (Stmt.listsOfChain chain)
  statement : ∀ s : State, s.Closed → Parser.Ready all s → Takes s inner.statement fun stmt _ t =>
    Parser.Ready all t ∧ stmt.Settled all

namespace Parser

open Stmt

variable {all : List Token} {s t : State} {ts : List Token} {inner : Level}

theorem recovered_writes (h : inner.Writes all) (closed : s.Closed) (ready : Ready all s) :
    Takes s (recovered inner) fun stmt _ t => Ready all t ∧ ∀ x ∈ stmt, x.Settled all := by
  have nested : Takes s.begin (nested inner.statement) fun stmt _ t =>
      Ready all t ∧ stmt.Settled all :=
    Takes.nested (h.statement { s.begin with depth := s.begin.depth + 1 } closed ready)
      fun _ _ _ _ => id
  refine takes_recovered h.returns (nested.weaken ?_) ?_
  · rintro stmt _ _ _ ⟨ready', settled⟩
    exact ⟨ready', by simpa using settled⟩
  · intro e u _ ran _
    have walk := (Returns.nested h.returns.statement).walk ran
    obtain ⟨ts, ahead⟩ := walk.suffix
    have failed : Taken s ts u := ⟨ahead.symm, walk.final⟩
    obtain ⟨_, _, ready'⟩ := (ready.inside.taken failed).synchronize (failed.closed closed)
    exact ⟨ready', by simp⟩

theorem statementsUntil_writes (h : inner.Writes all) (stop : State → Bool) :
    Bodies all (statementsUntil inner stop) := by
  intro s closed ready
  have link (body : List Stmt) (t : State) (closed : t.Closed) (ready : Ready all t)
      (known : ∀ x ∈ body, x.Settled all) : Takes t (statementLink inner stop body) fun next _ u =>
      Ready all u ∧ ∀ x ∈ next.1, x.Settled all := by
    refine takes_skipNewlines.bind ?_
    intro _ ts u taken newlines
    have ready' := ready.skip taken newlines
    apply takes_get
    split
    · exact takes_pure ⟨ready', known⟩
    · refine (recovered_writes h (taken.closed closed) ready').bind ?_
      rintro stmt _ v _ ⟨ready'', settled⟩
      refine takes_pure ⟨ready'', ?_⟩
      intro x member
      rcases List.mem_append.mp member with fresh | old
      · exact settled x (Option.mem_toList.mp fresh)
      · exact known x old
  refine Takes.bind (Q := fun body _ t => Ready all t ∧ ∀ x ∈ body, x.Settled all) ?_ ?_
  · refine takes_loop ⟨ready, by simp⟩ ?_
    rintro body ts t taken ⟨ready', known⟩
    exact link body t (taken.closed closed) ready' known
  · rintro body ts t _ ⟨ready', known⟩
    exact takes_pure ⟨ready', allWritten_lists fun x member => known x (List.mem_reverse.mp member)⟩

/-- What a block consumes starts with its brace. -/
theorem block_writes (h : inner.Writes all) (closed : s.Closed) (inside : Inside all s) :
    Takes s (block inner) fun body ts t =>
      (∃ opening rest, ts = opening :: rest ∧ opening.kind = .lBrace) ∧ Ready all t ∧
      AllWritten all (lists body) := by
  refine (takes_expect closed (by decide) _).bind ?_
  rintro opening _ t taken ⟨_, rfl, opens⟩
  have ready : Ready all t := inside.ready_one taken (by rw [opens]; decide)
  refine (statementsUntil_writes h _ t (taken.closed closed) ready).bind ?_
  rintro body ts u taken' ⟨ready', written⟩
  have closed' := taken'.closed (taken.closed closed)
  refine (takes_expect closed' (by decide) _).bind ?_
  rintro closing _ v taken'' ⟨_, rfl, closes⟩
  have ready'' : Ready all v := ready'.inside.ready_one taken'' (by rw [closes]; decide)
  exact takes_pure ⟨⟨opening, ts ++ [closing], by simp, opens⟩, ready'', written⟩

theorem body_writes (h : inner.Writes all) : Bodies all (body inner) := by
  intro s closed ready
  apply takes_get
  split
  · refine takes_skipNewlines.bind ?_
    intro _ ts t taken _
    exact (block_writes h (taken.closed closed) (ready.inside.taken taken)).weaken
      fun _ _ _ _ => And.right
  · exact statementsUntil_writes h _ s closed ready

/-- Line breaks before a token that the rule looked for. -/
theorem takes_before {kind : Kind} (here : s.checkPastNewlines kind = true) :
    Takes s skipNewlines fun _ _ t => t.peek.kind = kind := by
  rintro _ t run
  cases run
  rw [State.checkPastNewlines_eq] at here
  obtain ⟨ts, taken, _⟩ := Taken.skipNewlines s
  exact ⟨ts, taken, of_decide_eq_true here⟩

/-- A word of a statement has been read. -/
theorem takes_word (closed : s.Closed) (inside : Inside all s) (other : s.peek.kind ≠ .eof)
    (word : s.peek.kind ≠ .dot) :
    Takes s advance fun a _ t => a = s.peek ∧ t = s.advance ∧ Ready all t := by
  refine (takes_advance closed other).weaken ?_
  rintro _ _ t taken ⟨rfl, rfl, rfl⟩
  exact ⟨rfl, rfl, inside.ready_one taken word⟩

theorem alternate_writes (h : inner.Writes all) (closed : s.Closed) (ready : Ready all s) :
    Takes s (alternate inner) fun rest _ t =>
    Ready all t ∧ AllWritten all (listsOfAlternate rest) := by
  have chained {t : State} (closed : t.Closed) (inside : Inside all t) :
      Takes t (nested inner.ifChain >>= fun chain => pure (.elseIf chain)) fun rest _ t =>
        Ready all t ∧ AllWritten all (listsOfAlternate rest) := by
    have nested : Takes t (nested inner.ifChain) fun chain _ t =>
        Ready all t ∧ AllWritten all (listsOfChain chain) :=
      Takes.nested (h.ifChain { t with depth := t.depth + 1 } closed inside) fun _ _ _ _ => id
    refine nested.bind ?_
    rintro chain _ u _ ⟨ready, written⟩
    exact takes_pure ⟨ready, by rw [listsOfAlternate]; exact written⟩
  apply takes_get
  split
  · refine takes_skipNewlines.bind ?_
    intro _ ts t taken _
    exact chained (taken.closed closed) (ready.inside.taken taken)
  · apply takes_get
    split
    · next here =>
        refine (takes_before here).bind ?_
        intro _ ts t taken kind
        have closed' := taken.closed closed
        refine (takes_word closed' (ready.inside.taken taken) (by rw [kind]; decide)
          (by rw [kind]; decide)).bind ?_
        rintro _ us u taken' ⟨_, _, ready'⟩
        have closed'' := taken'.closed closed'
        refine (takes_check .kwIf).bind ?_
        rintro found _ _ _ ⟨rfl, rfl, _⟩
        split
        · exact chained closed'' ready'.inside
        · refine (body_writes h _ closed'' ready').bind ?_
          rintro stmts _ v _ ⟨ready'', written⟩
          exact takes_pure ⟨ready'', by rw [listsOfAlternate]; exact written⟩
    · exact takes_pure ⟨ready, by rw [listsOfAlternate]; exact allWritten_nil⟩

theorem expression_ready (h : inner.Writes all) (closed : s.Closed) (inside : Inside all s) :
    Takes s (expression inner) fun _ _ t => Ready all t :=
  (expression_phrases h.phrases s closed).weaken fun _ _ _ taken phrase =>
    inside.phrase taken phrase

theorem ifChain_writes (h : inner.Writes all) (closed : s.Closed) (inside : Inside all s) :
    Takes s (ifChain inner) fun chain _ t => Ready all t ∧ AllWritten all (listsOfChain chain) := by
  refine (takes_any (returns_advance (b := true)).climbs).bind ?_
  intro first _ t taken _
  have closed₁ := taken.closed closed
  refine (expression_ready h closed₁ (inside.taken taken)).bind ?_
  intro test _ u taken' ready
  have closed₂ := taken'.closed closed₁
  refine (body_writes h u closed₂ ready).bind ?_
  rintro stmts _ v taken'' ⟨ready', written⟩
  refine (alternate_writes h (taken''.closed closed₂) ready').bind ?_
  rintro rest _ w _ ⟨ready'', written'⟩
  apply takes_get
  refine takes_pure ⟨ready'', ?_⟩
  rw [listsOfChain]
  exact written.append written'

/-- The end of a statement that is its words and a body. -/
theorem closing_writes {f : List Stmt → State → Stmt} (h : inner.Writes all) (closed : s.Closed)
    (ready : Ready all s) (holds : ∀ body t, AllWritten all (lists body) → (f body t).Settled all) :
    Takes s (body inner >>= fun stmts => get >>= fun t => pure (f stmts t)) fun stmt _ t =>
      Ready all t ∧ stmt.Settled all := by
  refine (body_writes h s closed ready).bind ?_
  rintro stmts _ t _ ⟨ready', written⟩
  apply takes_get
  exact takes_pure ⟨ready', holds stmts t written⟩

theorem whileLoop_writes (h : inner.Writes all) (closed : s.Closed) (ready : Ready all s) :
    Takes s (whileLoop inner) fun stmt _ t => Ready all t ∧ stmt.Settled all := by
  refine (takes_any (returns_advance (b := true)).climbs).bind ?_
  intro first _ t taken _
  have closed' := taken.closed closed
  refine (expression_ready h closed' (ready.inside.taken taken)).bind ?_
  intro test _ u taken' ready'
  exact closing_writes (f := fun stmts t => .whileLoop test stmts (t.spanFrom first)) h
    (taken'.closed closed') ready' fun _ _ written => ⟨trivial, written⟩

theorem closeHeader_ready (closed : s.Closed) (ready : Ready all s) (parenthesized : Bool) :
    Takes s (closeHeader parenthesized) fun _ _ t => Ready all t := by
  cases parenthesized with
  | false => exact takes_pure ready
  | true =>
      refine (takes_expect closed (by decide) _).bind ?_
      rintro closing _ t taken ⟨_, rfl, closes⟩
      exact takes_pure (ready.inside.ready_one taken (by rw [closes]; decide))

theorem forLoop_writes (h : inner.Writes all) (closed : s.Closed) (ready : Ready all s) :
    Takes s (forLoop inner) fun stmt _ t => Ready all t ∧ stmt.Settled all := by
  refine (takes_any (returns_advance (b := true)).climbs).bind ?_
  intro first _ t taken _
  have closed₁ := taken.closed closed
  have inside₁ := ready.inside.taken taken
  refine (takes_any (returns_eat (b := true) _).climbs).bind ?_
  intro parenthesized _ u taken₁ _
  have closed₂ := taken₁.closed closed₁
  have inside₂ := inside₁.taken taken₁
  refine (takes_any loopVariables_returns.climbs).bind ?_
  intro names _ v taken₂ _
  have closed₃ := taken₂.closed closed₂
  have inside₃ := inside₂.taken taken₂
  refine (takes_any (returns_expect (b := true) _ _).climbs).bind ?_
  intro _ _ w taken₃ _
  have closed₄ := taken₃.closed closed₃
  refine (expression_ready h closed₄ (inside₃.taken taken₃)).bind ?_
  intro iterable _ x taken₄ ready₄
  have closed₅ := taken₄.closed closed₄
  refine (closeHeader_ready closed₅ ready₄ parenthesized).bind ?_
  intro _ _ y taken₅ ready₅
  exact closing_writes (f := fun stmts t => .forLoop names iterable stmts (t.spanFrom first)) h
    (taken₅.closed closed₅) ready₅ fun _ _ written => ⟨trivial, written⟩

theorem operand?_ready (h : inner.Writes all) (closed : s.Closed) (ready : Ready all s)
    (closing : Kind) : Takes s (operand? inner closing) fun _ _ t => Ready all t := by
  apply takes_get
  split
  · exact takes_pure ready
  · refine (expression_ready h closed ready.inside).bind ?_
    intro e _ t _ ready'
    exact takes_pure ready'

theorem loop_writes (h : inner.Writes all) (closed : s.Closed) (ready : Ready all s)
    (kind : s.peek.kind = .kwLoop) :
    Takes s (loop inner) fun stmt _ t => Ready all t ∧ stmt.Settled all := by
  refine (takes_word closed ready.inside (by rw [kind]; decide) (by rw [kind]; decide)).bind ?_
  rintro first _ t taken ⟨_, _, ready'⟩
  have closed' := taken.closed closed
  refine (operand?_ready h closed' ready' _).bind ?_
  intro count _ u taken' ready''
  exact closing_writes (f := fun stmts t => .loop count stmts (t.spanFrom first)) h
    (taken'.closed closed') ready'' fun _ _ written => ⟨trivial, written⟩

theorem returns_writes (h : inner.Writes all) (closed : s.Closed) (ready : Ready all s)
    (kind : s.peek.kind = .kwReturn) :
    Takes s (returns inner) fun stmt _ t => Ready all t ∧ stmt.Settled all := by
  refine (takes_word closed ready.inside (by rw [kind]; decide) (by rw [kind]; decide)).bind ?_
  rintro first _ t taken ⟨_, _, ready'⟩
  refine (operand?_ready h (taken.closed closed) ready' _).bind ?_
  intro argument _ u _ ready''
  apply takes_get
  exact takes_pure ⟨ready'', trivial, allWritten_nil⟩

theorem default?_matched (h : inner.Writes all) (closed : s.Closed) :
    Takes s (default? inner) fun _ ts _ => Matched ts ∧ ∀ t ∈ ts.head?, t.kind = .assign := by
  refine (takes_eat closed (by decide)).bind ?_
  rintro found _ t taken (⟨rfl, rfl, kind⟩ | ⟨rfl, rfl, rfl, _⟩)
  · refine (h.phrases.disjunction.nested t (taken.closed closed)).bind ?_
    intro e ts u _ phrase
    have sign : Matched [s.peek] := .plain (by rw [kind]; decide)
    exact takes_pure ⟨by simpa using sign.append phrase.matched, by simpa using kind⟩
  · exact takes_pure ⟨.nil, by simp⟩

/-- The tokens of a parameter: the mark of one by reference, the name, and what follows it. -/
def Wrote (p : Param) (ts : List Token) : Prop :=
  ∃ marks name tail, ts = marks ++ name :: tail ∧ name.kind = .identifier ∧ name.text = p.name ∧
    (∀ t ∈ tail.head?, t.kind ≠ .lParen) ∧ (∀ t ∈ marks, t.kind = .ampersand) ∧
    if p.byRef then ∃ mark, marks = [mark] ∧ p.span.start = mark.start else marks = [] ∧
      p.span.start = name.start

theorem start_spanFrom (s : State) (first : Token) : (s.spanFrom first).start = first.start := by
  rw [State.spanFrom]
  split <;> rfl

theorem param_wrote (h : inner.Writes all) (closed : s.Closed) :
    Takes s (param inner) fun p ts _ => Wrote p ts ∧ Matched ts := by
  apply takes_get
  refine (takes_eat closed (by decide)).bind ?_
  intro byRef marks t taken mark
  have closed₁ := taken.closed closed
  refine (takes_expect closed₁ (by decide) _).bind ?_
  rintro name _ u taken₁ ⟨here, rfl, identifier⟩
  have closed₂ := taken₁.closed closed₁
  refine (takes_eat closed₂ (by decide)).bind ?_
  intro variadic stars v taken₂ star
  refine (default?_matched h (taken₂.closed closed₂)).bind ?_
  rintro default ds w _ ⟨matched, first⟩
  apply takes_get
  apply takes_pure
  have named : Matched [name] := .plain (by rw [identifier]; decide)
  have starred : Matched stars ∧ ∀ t ∈ stars, t.kind = .multiply := by
    rcases star with ⟨_, rfl, kind⟩ | ⟨_, rfl, _, _⟩
    · exact ⟨.plain (by rw [kind]; decide), by simpa using kind⟩
    · exact ⟨.nil, by simp⟩
  have apart : ∀ t ∈ (stars ++ ds).head?, t.kind ≠ .lParen := by
    intro t member
    cases stars with
    | nil =>
        rw [first t member]
        decide
    | cons star stars =>
        cases member
        rw [starred.2 _ List.mem_cons_self]
        decide
  have tail : Matched (name :: (stars ++ ds)) := named.append (starred.1.append matched)
  rcases mark with ⟨rfl, rfl, ampersand⟩ | ⟨rfl, rfl, rfl, _⟩
  · have marked : Matched [s.peek] := .plain (by rw [ampersand]; decide)
    refine ⟨⟨[s.peek], name, stars ++ ds, by simp, identifier, rfl,
      apart, by simpa using ampersand, ?_⟩, ?_⟩
    · rw [if_pos rfl]
      exact ⟨s.peek, rfl, start_spanFrom w s.peek⟩
    · simpa using marked.append tail
  · refine ⟨⟨[], name, stars ++ ds, by simp, identifier, rfl, apart, by simp,
      ?_⟩, by simpa using tail⟩
    rw [if_neg Bool.false_ne_true, here]
    exact ⟨rfl, start_spanFrom w s.peek⟩

/-- A parameter among the tokens up to the closing parenthesis is written behind the opening one. -/
theorem written_of_among {p : Param} {us : List Token} (h : Among (Wrote p) us)
    (behind : List Token) : p.Written (us ++ behind) := by
  obtain ⟨front, item, next, back, rfl,
    ⟨marks, name, tail, rfl, identifier, text, apart, marked, start⟩, matched, before, follows⟩ := h
  have plain : Matched marks := .all fun t member => by rw [marked t member]; decide
  have last : ∀ t ∈ (front ++ marks).getLast?, t.kind.separates = true ∨ t.kind = .ampersand := by
    intro t member
    rw [List.getLast?_append, Option.mem_def, Option.or_eq_some_iff] at member
    rcases member with mark | ⟨_, earlier⟩
    · exact .inr (marked t (List.mem_of_getLast? mark))
    · exact .inl (before t earlier)
  have next' : next.kind ≠ .lParen := by
    rcases follows with separates | closes
    · intro same
      rw [same] at separates
      cases separates
    · rw [closes]
      decide
  have started : if p.byRef then ∃ mark, (front ++ marks).getLast? = some mark ∧
      mark.kind = .ampersand ∧ p.span.start = mark.start else p.span.start = name.start := by
    cases byRef : p.byRef with
    | true =>
        rw [byRef, if_pos rfl] at start
        obtain ⟨mark, rfl, same⟩ := start
        exact ⟨mark, List.getLast?_concat, marked mark List.mem_cons_self, same⟩
    | false =>
        rw [byRef, if_neg Bool.false_ne_true] at start
        exact start.2
  cases tail with
  | nil =>
      exact ⟨front ++ marks, name, next, back ++ behind, by simp, matched.append plain,
        identifier, text, next', last, started⟩
  | cons t tail =>
      exact ⟨front ++ marks, name, t, tail ++ next :: (back ++ behind), by simp,
        matched.append plain, identifier, text, apart t rfl, last, started⟩

/-- A declaration's name comes next. -/
theorem Ready.declares (ready : Ready all s) (starts : s.atFunction = true) :
    Takes s (eat .kwStatic) fun _ _ t => Token.headsDeclaration (· = .newline) t.ahead = true ∧
      ∃ front, all = front ++ t.ahead ∧ ∀ u ∈ front.getLast?, u.kind ≠ .dot := by
  obtain ⟨before, place, undotted⟩ := ready
  intro eaten t run
  rw [run_eat] at run
  cases ahead : s.ahead with
  | nil =>
      rw [State.atFunction, ahead] at starts
      cases starts
  | cons first rest =>
      have here : s.peek = first := by rw [State.peek, ahead]; rfl
      rw [State.atFunction, ahead] at starts
      dsimp only at starts
      split at run
      · next found =>
          cases run
          have kind : first.kind = .kwStatic := here ▸ of_decide_eq_true found
          rw [if_pos kind] at starts
          have moved : s.advance.ahead = rest := by rw [State.advance_of_cons ahead]
          refine ⟨[s.peek], .advance (by simp [ahead]), by rw [moved]; exact starts,
            before ++ [first], ?_, ?_⟩
          · rw [place, ahead, moved]
            simp
          · intro u member
            rw [List.getLast?_concat] at member
            cases member
            rw [kind]
            decide
      · next missing =>
          cases run
          have other : first.kind ≠ .kwStatic := fun same => missing (decide_eq_true (here ▸ same))
          rw [if_neg other] at starts
          have named : s.peek.kind = .identifier := by
            rw [here]
            cases rest with
            | nil => cases starts
            | cons paren rest =>
                rw [Token.headsDeclaration] at starts
                simp only [Bool.and_eq_true, decide_eq_true_eq] at starts
                exact starts.1.1
          exact ⟨[], .refl, by rw [ahead]; exact starts, before, place, undotted named⟩

theorem function_writes (h : inner.Writes all) (closed : s.Closed) (ready : Ready all s)
    (starts : s.atFunction = true) :
    Takes s (function inner) fun stmt _ t => Ready all t ∧ stmt.Settled all := by
  apply takes_get
  refine (ready.declares starts).bind ?_
  rintro isStatic _ t taken ⟨declares, front, place, undotted⟩
  have closed₁ := taken.closed closed
  have inside₁ := ready.inside.taken taken
  refine (takes_expect closed₁ (by decide) _).bind ?_
  rintro name _ u taken₁ ⟨_, rfl, identifier⟩
  have closed₂ := taken₁.closed closed₁
  refine (takes_expect closed₂ (by decide) _).bind ?_
  rintro paren _ v taken₂ ⟨_, rfl, opening⟩
  have closed₃ := taken₂.closed closed₂
  refine (inParens_among (fun _ closed => param_wrote h closed) closed₃ _).bind ?_
  rintro params us w taken₃ ⟨_, _, _, _, _, among⟩
  have closed₄ := taken₃.closed closed₃
  have inside₄ := ((inside₁.taken taken₁).taken taken₂).taken taken₃
  have line : t.ahead = name :: paren :: (us ++ w.ahead) := by
    rw [taken₁.ahead, taken₂.ahead, taken₃.ahead]
    rfl
  rw [line] at place declares
  have head : FunctionHead all name.text name.span params front name paren (us ++ w.ahead) :=
    ⟨place, identifier, rfl, rfl, opening, undotted, declares,
      fun p member => written_of_among (among p member) _⟩
  refine takes_skipNewlines.bind ?_
  intro _ _ x taken₄ _
  refine (block_writes h (taken₄.closed closed₄) (inside₄.taken taken₄)).bind ?_
  rintro stmts _ y _ ⟨_, ready', written⟩
  apply takes_get
  exact takes_pure ⟨ready', ⟨front, name, paren, us ++ w.ahead, head⟩, written⟩

theorem superClass?_first (closed : s.Closed) :
    Takes s superClass? fun _ ts _ => ∀ t ∈ ts.head?, t.kind = .identifier := by
  apply takes_get
  dsimp only
  split
  · next found =>
      refine (takes_advance closed (by rw [found.1]; decide)).bind ?_
      rintro _ _ t taken ⟨rfl, rfl, rfl⟩
      refine (takes_any (returns_expect (b := true) _ _).climbs).bind ?_
      intro base _ u _ _
      exact takes_pure (by simpa using found.1)
  · exact takes_pure (by simp)

theorem classDecl_writes (h : inner.Writes all) (closed : s.Closed) (ready : Ready all s)
    (kind : s.peek.kind = .kwClass) :
    Takes s (classDecl inner) fun stmt _ t => Ready all t ∧ stmt.Settled all := by
  obtain ⟨front, place⟩ := ready.inside
  refine (takes_advance closed (by rw [kind]; decide)).bind ?_
  rintro _ _ t taken ⟨rfl, rfl, rfl⟩
  have closed₁ := taken.closed closed
  have inside₁ := ready.inside.taken taken
  refine (takes_expect closed₁ (by decide) _).bind ?_
  rintro name _ u taken₁ ⟨_, rfl, identifier⟩
  have closed₂ := taken₁.closed closed₁
  have inside₂ := inside₁.taken taken₁
  refine (superClass?_first closed₂).bind ?_
  intro base extending v taken₂ first
  have closed₃ := taken₂.closed closed₂
  have inside₃ := inside₂.taken taken₂
  refine takes_skipNewlines.bind ?_
  intro _ newlines w taken₃ lines
  refine (block_writes h (taken₃.closed closed₃) (inside₃.taken taken₃)).bind ?_
  rintro stmts _ x taken₄ ⟨⟨opening, block, rfl, opens⟩, ready', written⟩
  apply takes_get
  have line : all =
      front ++ s.peek :: name :: (extending ++ (newlines ++ opening :: (block ++ x.ahead))) := by
    rw [place, taken.ahead, taken₁.ahead, taken₂.ahead, taken₃.ahead, taken₄.ahead]
    simp
  obtain ⟨next, back, behind, apart⟩ : ∃ next back,
      extending ++ (newlines ++ opening :: (block ++ x.ahead)) = next :: back ∧
          next.kind ≠ .lParen := by
    cases extending with
    | cons t extending => exact ⟨t, _, rfl, by rw [first t rfl]; decide⟩
    | nil =>
        cases newlines with
        | cons t newlines => exact ⟨t, _, rfl, by rw [lines t List.mem_cons_self]; decide⟩
        | nil => exact ⟨opening, _, rfl, by rw [opens]; decide⟩
  rw [behind] at line
  exact takes_pure
    ⟨ready', ⟨front, s.peek, name, next, back, line, kind, identifier, rfl, rfl, apart⟩, written⟩

theorem hotkeyBody_writes (h : inner.Writes all) : Bodies all (hotkeyBody inner) := by
  intro s closed ready
  apply takes_get
  split
  · refine takes_skipNewlines.bind ?_
    intro _ ts t taken _
    exact (block_writes h (taken.closed closed) (ready.inside.taken taken)).weaken
      fun _ _ _ _ => And.right
  · split
    · exact statementsUntil_writes h _ s closed ready
    · refine (recovered_writes h closed ready).bind ?_
      rintro stmt _ t _ ⟨ready', settled⟩
      exact takes_pure
        ⟨ready', allWritten_lists fun x member => settled x (Option.mem_toList.mp member)⟩

theorem hotkey_writes (h : inner.Writes all) (closed : s.Closed) (ready : Ready all s)
    (kind : s.peek.kind = .hotkey) :
    Takes s (hotkey inner) fun stmt _ t => Ready all t ∧ stmt.Settled all := by
  refine (takes_word closed ready.inside (by rw [kind]; decide) (by rw [kind]; decide)).bind ?_
  rintro first _ t taken ⟨_, _, ready'⟩
  refine (hotkeyBody_writes h t (taken.closed closed) ready').bind ?_
  rintro stmts _ u _ ⟨ready'', written⟩
  apply takes_get
  exact takes_pure ⟨ready'', trivial, written⟩

/-- The rest of a line ends before a line break or at the end. -/
theorem skipLine_other (closed : s.Closed) : s.skipLine.peek.kind ≠ .identifier := by
  have split : s.ahead = s.restOfLine ++ s.ahead.dropWhile (·.kind != .newline) :=
    List.takeWhile_append_dropWhile.symm
  rw [State.skipLine, consumeAll_eq _ s split, State.peek]
  cases behind : s.ahead.dropWhile (·.kind != .newline) with
  | nil =>
      have final : s.final.kind = .eof := closed
      simp [final]
  | cons next rest =>
      have stops := Text.dropWhile_stops (Option.mem_def.mpr (congrArg List.head? behind))
      have newline : next.kind = .newline := by simpa using stops
      simp [newline]

theorem directive_writes (closed : s.Closed) (ready : Ready all s) :
    Takes s directive fun stmt _ t => Ready all t ∧ stmt.Settled all := by
  refine (takes_any (returns_advance (b := true)).climbs).bind ?_
  intro first _ t taken _
  have closed' := taken.closed closed
  apply takes_get
  have skips : Takes t (modify State.skipLine) fun _ _ u => u = t.skipLine := by
    intro _ u run
    obtain ⟨ts, taken', _⟩ := takes_any (returns_skipLine (b := true)).climbs _ u run
    cases run
    exact ⟨ts, taken', rfl⟩
  refine skips.bind ?_
  rintro _ _ _ taken' rfl
  apply takes_get
  have inside := (ready.inside.taken taken).taken taken'
  exact takes_pure ⟨inside.other (skipLine_other closed'), trivial, allWritten_nil⟩

theorem statement_writes (h : inner.Writes all) (closed : s.Closed) (ready : Ready all s) :
    Takes s (statement inner) fun stmt _ t => Ready all t ∧ stmt.Settled all := by
  apply takes_get
  split
  case h_1 =>
    refine (ifChain_writes h closed ready.inside).bind ?_
    rintro chain _ t _ ⟨ready', written⟩
    exact takes_pure ⟨ready', trivial, written⟩
  case h_2 => exact whileLoop_writes h closed ready
  case h_3 => exact forLoop_writes h closed ready
  case h_4 kind => exact loop_writes h closed ready kind
  case h_5 kind => exact classDecl_writes h closed ready kind
  case h_6 kind => exact returns_writes h closed ready kind
  case h_9 kind => exact hotkey_writes h closed ready kind
  case h_10 => exact directive_writes closed ready
  case h_11 =>
    split
    · next starts => exact function_writes h closed ready starts
    · refine (expression_ready h closed ready.inside).bind ?_
      intro e _ t _ ready'
      exact takes_pure ⟨ready', trivial, allWritten_nil⟩
  all_goals
    next kind =>
      refine (takes_word closed ready.inside (by rw [kind]; decide) (by rw [kind]; decide)).bind ?_
      rintro t _ u _ ⟨_, _, ready'⟩
      exact takes_pure ⟨ready', trivial, allWritten_nil⟩

theorem tower_writes (all : List Token) (levels : Nat) : (tower levels).Writes all := by
  induction levels with
  | zero =>
      exact ⟨tower_returns 0, tower_phrases 0, fun _ _ _ => takes_refuse _,
        fun _ _ _ => takes_refuse _⟩
  | succ levels ih =>
      exact ⟨tower_returns (levels + 1), tower_phrases (levels + 1), fun _ => ifChain_writes ih,
        fun _ => statement_writes ih⟩

theorem script_writes (closed : s.Closed) : Takes s script fun body _ _ =>
    AllWritten s.ahead (lists body) := by
  have ready : Ready s.ahead s := ⟨[], rfl, fun _ t member => nomatch member⟩
  exact (statementsUntil_writes (tower_writes s.ahead _) _ s closed ready).weaken
    fun _ _ _ _ => And.right

end Parser

/-- Every declaration of the tree is written where it says, among the tokens that the parser
reads. -/
theorem parseTokens_writes (source : String) (tokens : List Token) :
    Stmt.AllWritten (State.ofTokens source tokens).ahead
    (Stmt.lists (parseTokens source tokens).program.body) := by
  have closed : (State.ofTokens source tokens).Closed := (State.cursor_ofTokens source tokens).final
  obtain ⟨body, t, run, _⟩ := script_ok closed
  obtain ⟨_, _, written⟩ := script_writes closed body t run
  rw [(parseTokens_of_run run).1]
  exact written

end ScriptLens
