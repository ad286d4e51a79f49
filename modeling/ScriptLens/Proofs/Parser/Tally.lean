import ScriptLens.Proofs.Parser.Progress
import ScriptLens.Syntax.Walk
import Mathlib.Tactic.Ring

/-!
Statements are paid for by tokens. Every statement notes where it starts; the starts get nearer to
the end of input, each of them at a token that is no line break, and every statement of the tree and
every dropped one has its own start.
-/

namespace ScriptLens

namespace Stmt

/-- The number of statements in some lists. -/
def count (lists : List (List Stmt)) : Nat := (lists.map List.length).sum

/-- The number of statements of a body, at every depth. -/
def total (body : List Stmt) : Nat := count (lists body)

/-- The number of statements inside a statement, at every depth. -/
def inside (s : Stmt) : Nat := count (listsOf s)

@[simp] theorem count_nil : count [] = 0 := rfl

@[simp] theorem count_cons (body : List Stmt) (lists : List (List Stmt)) :
    count (body :: lists) = body.length + count lists := by
  simp [count]

@[simp] theorem count_append (a b : List (List Stmt)) : count (a ++ b) = count a + count b := by
  simp [count]

theorem total_eq (body : List Stmt) : total body = body.length + count (listsInside body) :=
  count_cons _ _

@[simp] theorem total_nil : total [] = 0 := rfl

theorem total_cons (s : Stmt) (body : List Stmt) :
    total (s :: body) = 1 + s.inside + total body := by
  simp only [total_eq, listsInside, List.length_cons, count_append, inside]
  ring

theorem total_append (a b : List Stmt) : total (a ++ b) = total a + total b := by
  induction a with
  | nil => simp
  | cons s a ih =>
      rw [List.cons_append, total_cons, total_cons, ih]
      ring

theorem total_reverse (body : List Stmt) : total body.reverse = total body := by
  induction body with
  | nil => rfl
  | cons s body ih =>
      rw [List.reverse_cons, total_append, total_cons, ih, total_cons, total_nil]
      ring

theorem count_body (body : List Stmt) : count (body :: listsInside body) = total body := rfl

end Stmt

namespace Parser

/-- With `n` tokens ahead, the next one is no line break. -/
def SolidAt (tokens : List Token) (n : Nat) : Prop :=
  ∃ t rest, (t :: rest) <:+ tokens ∧ rest.length + 1 = n ∧ t.kind ≠ .newline

/-- What a walk has noted: the starts of statements, below a bound and nearer and nearer to the end,
one for each dropped statement and `k` more. -/
structure Logged (bound k : Nat) (s t : State) : Prop where
  final : t.final = s.final
  suffix : t.ahead <:+ s.ahead
  noted : ∃ starts, t.begun = starts ++ s.begun ∧
    k + t.skipped.length ≤ s.skipped.length + starts.length ∧ starts.Pairwise (· < ·) ∧
    ∀ n ∈ starts, t.ahead.length < n ∧ n < bound ∧ SolidAt s.ahead n

namespace Logged

variable {bound k l : Nat} {s t u : State}

theorem quiet (h : Walk false s t) : Logged bound 0 s t :=
  ⟨h.final, h.suffix, [], h.begun, by simp [h.skipped], .nil, by simp⟩

theorem weaken (h : Logged bound k s t) (less : l ≤ k) : Logged bound l s t := by
  obtain ⟨starts, begun, paid, sorted, each⟩ := h.noted
  exact ⟨h.final, h.suffix, starts, begun, by omega, sorted, each⟩

theorem trans (first : Logged bound k s t) (second : Logged (t.ahead.length + 1) l t u)
    (below : t.ahead.length < bound) : Logged bound (k + l) s u := by
  obtain ⟨starts, begun, paid, sorted, each⟩ := first.noted
  obtain ⟨starts', begun', paid', sorted', each'⟩ := second.noted
  refine ⟨second.final.trans first.final, second.suffix.trans first.suffix, starts' ++ starts,
    ?_, ?_, ?_, ?_⟩
  · rw [begun', begun, List.append_assoc]
  · rw [List.length_append]
    omega
  · rw [List.pairwise_append]
    refine ⟨sorted', sorted, ?_⟩
    intro n hn m hm
    have := (each' n hn).2.1
    have := (each m hm).1
    omega
  · intro n member
    rcases List.mem_append.mp member with later | earlier
    · obtain ⟨after, upTo, first', rest, inside, size, kind⟩ := each' n later
      exact ⟨after, by omega, first', rest, inside.trans first.suffix, size, kind⟩
    · obtain ⟨after, upTo, solid⟩ := each n earlier
      have := second.suffix.length_le
      exact ⟨by omega, upTo, solid⟩

theorem walk (first : Logged bound k s t) (second : Walk false t u) : Logged bound k s u := by
  obtain ⟨starts, begun, paid, sorted, each⟩ := first.noted
  refine ⟨second.final.trans first.final, second.suffix.trans first.suffix, starts, ?_,
    ?_, sorted, ?_⟩
  · rw [second.begun, begun]
  · rw [second.skipped]
    exact paid
  · intro n member
    obtain ⟨after, upTo, solid⟩ := each n member
    have := second.length_le
    exact ⟨by omega, upTo, solid⟩

/-- A start noted at a token that is no line break pays for one statement. -/
theorem begin (h : Logged s.ahead.length k s.begin t) (shorter : t.ahead.length < s.ahead.length)
    (nonempty : s.ahead ≠ []) (solid : s.peek.kind ≠ .newline) :
    Logged (s.ahead.length + 1) (1 + k) s t := by
  obtain ⟨starts, begun, paid, sorted, each⟩ := h.noted
  have here : SolidAt s.ahead s.ahead.length := by
    cases ahead : s.ahead with
    | nil => exact absurd ahead nonempty
    | cons first rest =>
        rw [State.peek, ahead] at solid
        exact ⟨first, rest, List.suffix_rfl, rfl, solid⟩
  refine ⟨h.final, h.suffix, starts ++ [s.ahead.length], ?_, ?_, ?_, ?_⟩
  · rw [begun]
    simp [State.begin]
  · have same : s.begin.skipped = s.skipped := rfl
    rw [same] at paid
    rw [List.length_append, List.length_singleton]
    omega
  · rw [List.pairwise_append]
    refine ⟨sorted, List.pairwise_singleton _ _, ?_⟩
    intro n hn m hm
    rw [List.mem_singleton.mp hm]
    exact (each n hn).2.1
  · intro n member
    rcases List.mem_append.mp member with inner | last
    · obtain ⟨after, upTo, inside⟩ := each n inner
      exact ⟨after, Nat.lt_succ_of_lt upTo, inside⟩
    · rw [List.mem_singleton.mp last]
      exact ⟨shorter, Nat.lt_succ_self _, here⟩

/-- A dropped statement uses up what was paid for one. -/
theorem drop (h : Logged bound (1 + k) s t) (entry : Skipped) :
    Logged bound k s { t with skipped := entry :: t.skipped } := by
  obtain ⟨starts, begun, paid, sorted, each⟩ := h.noted
  refine ⟨h.final, h.suffix, starts, begun, ?_, sorted, each⟩
  rw [List.length_cons]
  omega

end Logged

end Parser

namespace ParseM

open ScriptLens.Parser

variable {α β : Type} {s : State}

/-- The weight of an outcome; a failure weighs nothing. -/
def weigh (w : α → Nat) : Except ParseError α → Nat
  | .ok a => w a
  | .error _ => 0

/-- A rule whose statements are all noted. -/
def Tallies (m : ParseM α) (w : α → Nat) : Prop :=
  ∀ s, s.Closed → Logged (s.ahead.length + 1) (weigh w (m.run s).1) s (m.run s).2

theorem Tallies.logged {m : ParseM α} {w : α → Nat} {s t : State} {result : Except ParseError α}
    (h : Tallies m w) (run : m.run s = (result, t)) (closed : s.Closed) :
    Logged (s.ahead.length + 1) (weigh w result) s t := by
  have logged := h s closed
  rwa [run] at logged

/-- A rule that, run from a state, moves on before the first statement inside it starts. -/
def OpensAt (s : State) (m : ParseM α) (w : α → Nat) : Prop :=
  Logged s.ahead.length (weigh w (m.run s).1) s (m.run s).2 ∧ ConsumesAt s m

/-- A rule that moves on before the first statement inside it starts. -/
def Opens (m : ParseM α) (w : α → Nat) : Prop := ∀ s, s.Closed → s.ahead ≠ [] → OpensAt s m w

theorem OpensAt.congr {m m' : ParseM α} {w : α → Nat} (h : OpensAt s m w)
    (same : m'.run s = m.run s) : OpensAt s m' w := by
  unfold OpensAt ConsumesAt
  rw [same]
  exact h

theorem Returns.tallies {m : ParseM α} (h : Returns false m) : Tallies m fun _ => 0 := by
  intro s closed
  have quiet : Logged (s.ahead.length + 1) 0 s (m.run s).2 := .quiet (h s).1
  cases result : (m.run s).1 <;> exact quiet

theorem tallies_pure {a : α} {w : α → Nat} (h : w a = 0) : Tallies (pure a) w := by
  intro s closed
  exact (Logged.quiet .refl).weaken (Nat.le_of_eq h)

theorem Tallies.bind {m : ParseM α} {f : α → ParseM β} {w : α → Nat} {v : β → Nat}
    (hm : Tallies m w) (hf : ∀ a, Tallies (f a) fun c => v c - w a) : Tallies (m >>= f) v := by
  intro s closed
  have first := hm s closed
  rw [run_bind]
  generalize m.run s = outcome at first
  obtain ⟨result, t⟩ := outcome
  cases result with
  | error e => exact first
  | ok a =>
      have closed' : t.Closed := by
        unfold State.Closed
        rw [first.final]
        exact closed
      have second := hf a t closed'
      refine (first.trans second (Nat.lt_succ_of_le first.suffix.length_le)).weaken ?_
      change weigh v ((f a).run t).1 ≤ w a + weigh (fun c => v c - w a) ((f a).run t).1
      cases ((f a).run t).1 with
      | error e => exact Nat.zero_le _
      | ok c =>
          simp only [weigh]
          omega

theorem Returns.tallies_bind {m : ParseM α} {f : α → ParseM β} {v : β → Nat} (hm : Returns false m)
    (hf : ∀ a, Tallies (f a) v) : Tallies (m >>= f) v := hm.tallies.bind hf

theorem Tallies.nested {m : ParseM α} {w : α → Nat} (h : Tallies m w) : Tallies (nested m) w := by
  intro s closed
  rw [run_nested]
  split
  · exact Logged.quiet .refl
  · have inside := h { s with depth := s.depth + 1 } closed
    exact ⟨inside.final, inside.suffix, inside.noted⟩

theorem Opens.nested {m : ParseM α} {w : α → Nat} (h : Opens m w) : Opens (nested m) w := by
  intro s closed nonempty
  have inside := h { s with depth := s.depth + 1 } closed nonempty
  refine ⟨?_, ?_⟩
  · rw [run_nested]
    split
    · exact Logged.quiet .refl
    · exact ⟨inside.1.final, inside.1.suffix, inside.1.noted⟩
  · intro a t run
    obtain ⟨_, u, ran, rfl⟩ := run_nested_eq_ok run
    exact inside.2 a u ran

/-- A rule that starts with something quiet that consumes a token. -/
theorem opens_bind {m : ParseM α} {f : α → ParseM β} {v : β → Nat} (quiet : Returns false m)
    (hm : ∀ s : State, s.Closed → s.ahead ≠ [] → ConsumesAt s m) (hf : ∀ a, Tallies (f a) v) :
    Opens (m >>= f) v := by
  intro s closed nonempty
  have shorter := hm s closed nonempty
  have walk := (quiet s).1
  refine ⟨?_, ?_⟩
  · rw [run_bind]
    generalize hrun : m.run s = outcome at walk
    obtain ⟨result, t⟩ := outcome
    cases result with
    | error e => exact Logged.quiet walk
    | ok a =>
        have first : Logged s.ahead.length 0 s t := .quiet walk
        exact (first.trans (hf a t (closed.walk walk)) (shorter a t hrun)).weaken
          (Nat.le_add_left _ _)
  · intro c u run
    obtain ⟨a, t, first, rest⟩ := run_bind_eq_ok run
    have later := (hf a t (closed.walk (quiet.climbs.walk first))).suffix.length_le
    rw [rest] at later
    exact Nat.lt_of_le_of_lt later (shorter a t first)

theorem opens_advance {f : Token → ParseM β} {v : β → Nat} (hf : ∀ a, Tallies (f a) v) :
    Opens (advance >>= f) v :=
  opens_bind returns_advance (fun _ _ nonempty => consumesAt_advance nonempty) hf

theorem Consumes.opens {m : ParseM α} {f : α → ParseM β} {v : β → Nat} (hm : Consumes m)
    (quiet : Returns false m) (hf : ∀ a, Tallies (f a) v) : Opens (m >>= f) v :=
  opens_bind quiet (fun s closed _ => hm s closed) hf

/-- A rule that only wraps what another one gives. -/
theorem Opens.map {m : ParseM α} {f : α → β} {w : α → Nat} {v : β → Nat} (hm : Opens m w)
    (same : ∀ a, v (f a) = w a) : Opens (m >>= fun a => pure (f a)) v := by
  intro s closed nonempty
  obtain ⟨logged, shorter⟩ := hm s closed nonempty
  refine ⟨?_, shorter.bind (b := false) fun _ => (returns_pure _).climbs⟩
  rw [run_bind]
  generalize m.run s = outcome at logged
  obtain ⟨result, t⟩ := outcome
  cases result with
  | error e => exact logged
  | ok a => exact logged.weaken (Nat.le_of_eq (same a))

theorem opens_get {f : State → ParseM β} {v : β → Nat} (hf : ∀ s, Opens (f s) v) :
    Opens (get >>= f) v :=
  fun s closed nonempty => hf s s closed nonempty

theorem opens_eat {kind : Kind} {f : Bool → ParseM β} {v : β → Nat}
    (found : Tallies (f true) v) (other : Opens (f false) v) : Opens (eat kind >>= f) v := by
  intro s closed nonempty
  cases here : s.check kind with
  | true =>
      have run : (eat kind).run s = (.ok true, s.advance) := by rw [run_eat, here]; rfl
      have opens := opens_advance (fun _ => found) s closed nonempty
      exact opens.congr (by rw [run_bind_ok run, run_bind_ok (run_advance s)])
  | false =>
      have run : (eat kind).run s = (.ok false, s) := by rw [run_eat, here]; rfl
      exact (other s closed nonempty).congr (run_bind_ok run)

/-- A loop tallies what its steps add. -/
theorem Tallies.repeating {step : α → ParseM (α × Bool)} {w : α → Nat}
    (h : ∀ a, Tallies (step a) fun next => w next.1 - w a) (a : α) :
    Tallies (repeating step a) fun c => w c - w a := by
  intro s closed
  have rounds := rounds_repeating step a s
  generalize (ParseM.repeating step a).run s = outcome at rounds ⊢
  induction rounds with
  | failed run => exact (h _).logged run closed
  | stopped run _ => exact (h _).logged run closed
  | @again a s t c outcome run _ _ ih =>
      have first := (h a).logged run closed
      have closed' : t.Closed := by
        unfold State.Closed
        rw [first.final]
        exact closed
      have second := ih closed'
      refine (first.trans second (Nat.lt_succ_of_le first.suffix.length_le)).weaken ?_
      obtain ⟨result, u⟩ := outcome
      cases result with
      | error e => exact Nat.zero_le _
      | ok d =>
          simp only [weigh]
          omega

end ParseM

/-- The weights of what the rules of a level give. -/
structure Level.Tallies (inner : Level) : Prop where
  returns : inner.Returns
  expression : ParseM.Consumes (Parser.expression inner)
  ifChain : ParseM.Tallies inner.ifChain fun chain => Stmt.count (Stmt.listsOfChain chain)
  statement : ParseM.Opens inner.statement Stmt.inside

namespace Parser

open ParseM

variable {inner : Level} {s : State}

/-- A statement leaves fewer tokens ahead whether it parses or is dropped. -/
theorem recovered_shorter (h : inner.Tallies) (closed : s.Closed) (nonempty : s.ahead ≠ []) :
    ((recovered inner).run s).2.ahead.length < s.ahead.length := by
  obtain ⟨logged, shorter⟩ := h.statement.nested s.begin closed nonempty
  unfold ConsumesAt at shorter
  rw [run_recovered]
  generalize (nested inner.statement).run s.begin = outcome at logged shorter
  obtain ⟨result, t⟩ := outcome
  cases result with
  | ok stmt => exact shorter stmt t rfl
  | error e =>
      change t.synchronize.ahead.length < s.ahead.length
      have upTo : t.ahead.length ≤ s.ahead.length := logged.suffix.length_le
      by_cases left : t.ahead = []
      · have walk : Walk true t t.synchronize := t.walk_synchronize
        have positive := List.length_pos_iff.mpr nonempty
        have nothing := walk.length_le
        rw [left, List.length_nil] at nothing
        omega
      · exact Nat.lt_of_lt_of_le (State.synchronize_length left) upTo

/-- A statement notes its start, which pays for it whether it parses or is dropped. -/
theorem recovered_logged (h : inner.Tallies) (closed : s.Closed) (nonempty : s.ahead ≠ [])
    (solid : s.peek.kind ≠ .newline) :
    Logged (s.ahead.length + 1) (weigh (fun stmt => Stmt.total stmt.toList)
      ((recovered inner).run s).1) s ((recovered inner).run s).2 := by
  have logged := (h.statement.nested s.begin closed nonempty).1
  have shorter := recovered_shorter h closed nonempty
  rw [run_recovered] at shorter ⊢
  generalize (nested inner.statement).run s.begin = outcome at logged shorter
  obtain ⟨result, t⟩ := outcome
  cases result with
  | ok stmt =>
      have inside : Logged s.ahead.length stmt.inside s.begin t := logged
      refine (inside.begin shorter nonempty solid).weaken ?_
      change Stmt.total [stmt] ≤ 1 + stmt.inside
      rw [Stmt.total_cons, Stmt.total_nil]
      exact Nat.le_refl _
  | error e =>
      have inside : Logged s.ahead.length 0 s.begin t := logged
      exact ((inside.walk t.walk_synchronize).begin shorter nonempty solid).drop _

theorem recovered_ok (inner : Level) (s : State) :
    ∃ stmt t, (recovered inner).run s = (.ok stmt, t) := by
  rw [run_recovered]
  rcases (nested inner.statement).run s.begin with ⟨result, t⟩
  cases result with
  | ok stmt => exact ⟨_, _, rfl⟩
  | error e => exact ⟨_, _, rfl⟩

theorem statementLink_tallies (h : inner.Tallies) {stop : State → Bool}
    (ends : ∀ s, s.atEnd = true → stop s = true) (body : List Stmt) :
    Tallies (statementLink inner stop body) fun next => Stmt.total next.1 - Stmt.total body := by
  intro s closed
  have quiet : Walk false s s.skipNewlines := s.walk_skipNewlines
  rw [statementLink, run_bind_ok (run_skipNewlines s), run_bind_ok (run_get s.skipNewlines)]
  cases stopped : stop s.skipNewlines with
  | true => exact (Logged.quiet quiet).weaken (Nat.le_of_eq (Nat.sub_self _))
  | false =>
      have nonempty := State.ahead_ne_nil_of_stop ends stopped
      have solid := State.skipNewlines_peek closed
      have logged := recovered_logged h (closed.walk quiet) nonempty solid
      obtain ⟨stmt, t, run⟩ := recovered_ok inner s.skipNewlines
      rw [run] at logged
      rw [if_neg Bool.false_ne_true, run_bind_ok run]
      refine (Logged.trans (Logged.quiet quiet) logged (Nat.lt_succ_of_le quiet.length_le)).weaken
        ?_
      change Stmt.total (stmt.toList ++ body) - Stmt.total body ≤ 0 + Stmt.total stmt.toList
      rw [Stmt.total_append]
      omega

theorem statementsUntil_tallies (h : inner.Tallies) {stop : State → Bool}
    (ends : ∀ s, s.atEnd = true → stop s = true) :
    Tallies (statementsUntil inner stop) Stmt.total := by
  refine (Tallies.repeating (w := Stmt.total) (statementLink_tallies h ends) []).bind fun body =>
    tallies_pure ?_
  rw [Stmt.total_reverse]
  exact Nat.sub_self _

theorem block_tallies (h : inner.Tallies) : Tallies (block inner) Stmt.total := by
  refine (returns_expect _ _).tallies_bind fun _ => ?_
  refine (statementsUntil_tallies h ?_).bind fun _ => (returns_expect _ _).tallies_bind fun _ =>
    tallies_pure (Nat.sub_self _)
  intro s atEnd
  simp [atEnd]

theorem endsBody_atEnd (atHotkey : Bool) (s : State) (atEnd : s.atEnd = true) :
    endsBody atHotkey s = true := by
  simp [endsBody, atEnd]

theorem body_tallies (h : inner.Tallies) : Tallies (body inner) Stmt.total := by
  refine returns_get.tallies_bind fun s => ?_
  split
  · exact returns_skipNewlines.tallies_bind fun _ => block_tallies h
  · exact statementsUntil_tallies h (endsBody_atEnd false)

theorem alternate_tallies (h : inner.Tallies) :
    Tallies (alternate inner) fun rest => Stmt.count (Stmt.listsOfAlternate rest) := by
  have chained : Tallies (nested inner.ifChain >>= fun chain => pure (Alternate.elseIf chain))
      fun rest => Stmt.count (Stmt.listsOfAlternate rest) :=
    h.ifChain.nested.bind fun _ => tallies_pure (Nat.sub_self _)
  refine returns_get.tallies_bind fun s => ?_
  split
  · exact returns_skipNewlines.tallies_bind fun _ => chained
  · refine returns_get.tallies_bind fun s => ?_
    split
    · refine returns_skipNewlines.tallies_bind fun _ => returns_advance.tallies_bind fun _ =>
        (returns_check _).tallies_bind fun again => ?_
      split
      · exact chained
      · exact (body_tallies h).bind fun _ => tallies_pure (Nat.sub_self _)
    · exact tallies_pure rfl

/-- An `if` behind its keyword. -/
theorem ifTail_tallies (h : inner.Tallies) (first : Token) :
    Tallies (do
      let test ← expression inner
      let consequent ← body inner
      let rest ← alternate inner
      return IfChain.mk test consequent rest ((← get).spanFrom first))
      fun chain => Stmt.count (Stmt.listsOfChain chain) := by
  refine (expression_returns h.returns).tallies_bind fun test =>
      (body_tallies h).bind fun consequent =>
    (alternate_tallies h).bind fun rest => returns_get.tallies_bind fun s => tallies_pure ?_
  simp only [Stmt.listsOfChain, Stmt.count_append, Stmt.count_body]
  omega

theorem ifChain_tallies (h : inner.Tallies) :
    Tallies (ifChain inner) fun chain => Stmt.count (Stmt.listsOfChain chain) :=
  returns_advance.tallies_bind (ifTail_tallies h)

theorem ifChain_opens (h : inner.Tallies) :
    Opens (ifChain inner) fun chain => Stmt.count (Stmt.listsOfChain chain) :=
  opens_advance (ifTail_tallies h)

/-- A statement whose inner statements are one body. -/
theorem bodied_tallies {m : ParseM (List Stmt)} (hm : Tallies m Stmt.total)
    {f : List Stmt → State → Stmt} (inside : ∀ stmts s, (f stmts s).inside = Stmt.total stmts) :
    Tallies (m >>= fun stmts => get >>= fun s => pure (f stmts s)) Stmt.inside := by
  refine hm.bind fun stmts => returns_get.tallies_bind fun s => tallies_pure ?_
  rw [inside]
  exact Nat.sub_self _

theorem whileLoop_opens (h : inner.Tallies) : Opens (whileLoop inner) Stmt.inside :=
  opens_advance fun _ => (expression_returns h.returns).tallies_bind fun _ =>
    bodied_tallies (body_tallies h) fun _ _ => rfl

theorem forLoop_opens (h : inner.Tallies) : Opens (forLoop inner) Stmt.inside :=
  opens_advance fun _ => (returns_eat _).tallies_bind fun _ =>
      loopVariables_returns.tallies_bind fun _ =>
    (returns_expect _ _).tallies_bind fun _ => (expression_returns h.returns).tallies_bind fun _ =>
      (closeHeader_returns _).tallies_bind fun _ => bodied_tallies (body_tallies h) fun _ _ => rfl

theorem loop_opens (h : inner.Tallies) : Opens (loop inner) Stmt.inside :=
  opens_advance fun _ => (operand?_returns h.returns _).tallies_bind fun _ =>
    bodied_tallies (body_tallies h) fun _ _ => rfl

theorem returns_opens (h : inner.Tallies) : Opens (returns inner) Stmt.inside :=
  opens_advance fun _ => (operand?_returns h.returns _).tallies_bind fun _ =>
    returns_get.tallies_bind fun _ => tallies_pure rfl

theorem classDecl_opens (h : inner.Tallies) : Opens (classDecl inner) Stmt.inside :=
  opens_advance fun _ => (returns_expect _ _).tallies_bind fun _ =>
      superClass?_returns.tallies_bind fun _ =>
    returns_skipNewlines.tallies_bind fun _ => bodied_tallies (block_tallies h) fun _ _ => rfl

theorem function_opens (h : inner.Tallies) : Opens (function inner) Stmt.inside := by
  refine opens_get fun s => ?_
  have tail (isStatic : Bool) (name : Token) : Tallies (do
      let _ ← expect .lParen .openParameters
      let params ← params inner
      skipNewlines
      let stmts ← block inner
      return Stmt.function name.text name.span params stmts isStatic ((← get).spanFrom s.peek))
      Stmt.inside :=
    (returns_expect _ _).tallies_bind fun _ =>
      (inParens_returns (param_returns h.returns) _).tallies_bind fun _ =>
        returns_skipNewlines.tallies_bind fun _ => bodied_tallies (block_tallies h) fun _ _ => rfl
  refine opens_eat ?_ ?_
  · exact (returns_expect _ _).tallies_bind (tail true)
  · exact (consumes_expect (by decide) _).opens (returns_expect _ _) (tail false)

theorem hotkeyBody_tallies (h : inner.Tallies) : Tallies (hotkeyBody inner) Stmt.total := by
  intro s closed
  rw [hotkeyBody, run_bind_ok (run_get s)]
  split
  · exact (returns_skipNewlines.tallies_bind fun _ => block_tallies h) s closed
  · split
    · exact statementsUntil_tallies h (endsBody_atEnd true) s closed
    · next _ other =>
        rw [Bool.or_eq_true, not_or] at other
        have nonempty : s.ahead ≠ [] := by
          intro nothing
          exact other.1 (by rw [State.atEnd, nothing]; rfl)
        have solid : s.peek.kind ≠ .newline := by
          intro here
          exact other.2 (decide_eq_true here)
        have logged := recovered_logged h closed nonempty solid
        obtain ⟨stmt, t, run⟩ := recovered_ok inner s
        rw [run] at logged
        rw [run_bind_ok run]
        exact logged

theorem hotkey_opens (h : inner.Tallies) : Opens (hotkey inner) Stmt.inside :=
  opens_advance fun _ => bodied_tallies (hotkeyBody_tallies h) fun _ _ => rfl

theorem directive_opens : Opens directive Stmt.inside :=
  opens_advance fun _ => returns_get.tallies_bind fun _ => returns_skipLine.tallies_bind fun _ =>
    returns_get.tallies_bind fun _ => tallies_pure rfl

theorem statement_opens (h : inner.Tallies) : Opens (statement inner) Stmt.inside := by
  refine opens_get fun s => ?_
  split
  case h_1 => exact (ifChain_opens h).map fun _ => rfl
  case h_2 => exact whileLoop_opens h
  case h_3 => exact forLoop_opens h
  case h_4 => exact loop_opens h
  case h_5 => exact classDecl_opens h
  case h_6 => exact returns_opens h
  case h_7 => exact opens_advance fun _ => tallies_pure rfl
  case h_8 => exact opens_advance fun _ => tallies_pure rfl
  case h_9 => exact hotkey_opens h
  case h_10 => exact directive_opens
  case h_11 =>
    split
    · exact function_opens h
    · exact h.expression.opens (expression_returns h.returns) fun _ => tallies_pure rfl

theorem layer_tallies (h : inner.Tallies) : (layer inner).Tallies :=
  ⟨layer_returns h.returns, (assignment_consumes h.returns).nested, ifChain_tallies h,
    statement_opens h⟩

theorem tower_tallies (levels : Nat) : (tower levels).Tallies := by
  induction levels with
  | zero =>
      refine ⟨tower_returns 0, ?_, ?_, ?_⟩
      · exact Consumes.nested fun s _ => consumesAt_refuse _
      · exact fun s _ => Logged.quiet .refl
      · exact fun s _ _ => ⟨Logged.quiet .refl, consumesAt_refuse _⟩
  | succ levels ih => exact layer_tallies ih

theorem rules_tallies : rules.Tallies := tower_tallies _

end Parser

end ScriptLens
