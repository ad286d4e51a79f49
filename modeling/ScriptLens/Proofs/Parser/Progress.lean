import ScriptLens.Proofs.Parser.Cursor
import ScriptLens.Proofs.Parser.Tower

/-!
Progress. An expression that parses has consumed a token, a statement that starts before the end of
input leaves fewer tokens ahead whether it parses or is dropped, and no loop of the grammar asks for
more without having consumed something.
-/

namespace ScriptLens.Parser.State

/-- The end mark behind the tokens is one. -/
def Closed (s : State) : Prop := s.final.kind = .eof

variable {s : State}

theorem ahead_ne_nil (h : s.Closed) (kind : s.peek.kind ≠ .eof) : s.ahead ≠ [] := by
  intro nothing
  rw [peek, nothing] at kind
  exact kind h

theorem ahead_ne_nil_of_check (h : s.Closed) {kind : Kind} (hk : kind ≠ .eof)
    (found : s.check kind = true) : s.ahead ≠ [] := by
  refine ahead_ne_nil h ?_
  rw [of_decide_eq_true found]
  exact hk

theorem advance_length (h : s.ahead ≠ []) : s.advance.ahead.length + 1 = s.ahead.length := by
  cases ahead : s.ahead with
  | nil => exact absurd ahead h
  | cons t rest =>
      rw [advance_of_cons ahead]
      rfl

theorem Closed.walk {loud : Bool} {t : State} (h : s.Closed) (walk : Walk loud s t) : t.Closed := by
  unfold Closed
  rw [walk.final]
  exact h

theorem Closed.advance (h : s.Closed) : s.advance.Closed := by
  have walk : Walk true s s.advance := s.walk_advance
  exact h.walk walk

theorem skipNewlines_go_peek (closed : s.Closed) :
    (skipNewlines.go s.ahead s).peek.kind ≠ .newline := by
  induction ahead : s.ahead generalizing s with
  | nil =>
      have final : s.final.kind = .eof := closed
      rw [skipNewlines.go, peek, ahead]
      simp [final]
  | cons t rest ih =>
      rw [skipNewlines.go]
      split
      · have next : s.advance.ahead = rest := by rw [advance_of_cons ahead]
        exact ih closed.advance next
      · next other =>
          rw [peek, ahead]
          exact other

theorem skipNewlines_peek (closed : s.Closed) : s.skipNewlines.peek.kind ≠ .newline :=
  skipNewlines_go_peek closed

theorem skipNewlines_ahead (s : State) :
    s.skipNewlines.ahead = s.ahead.dropWhile (·.kind = .newline) := by
  have go (ts : List Token) (s : State) (ahead : s.ahead = ts) :
      (skipNewlines.go ts s).ahead = ts.dropWhile (·.kind = .newline) := by
    induction ts generalizing s with
    | nil => exact ahead
    | cons t rest ih =>
        rw [skipNewlines.go]
        split
        · next feed =>
            rw [List.dropWhile_cons_of_pos (by simpa using feed)]
            exact ih _ (by rw [advance_of_cons ahead])
        · next other =>
            rw [List.dropWhile_cons_of_neg (by simpa using other)]
            exact ahead
  exact go s.ahead s rfl

theorem checkPastNewlines_eq (s : State) (kind : Kind) :
    s.checkPastNewlines kind = s.skipNewlines.check kind := by
  have walk : Walk false s s.skipNewlines := s.walk_skipNewlines
  rw [check, peek, skipNewlines_ahead, walk.final]
  rfl

theorem synchronize_length (h : s.ahead ≠ []) : s.synchronize.ahead.length < s.ahead.length := by
  have shorter := advance_length h
  have walk : Walk true s.advance s.synchronize := walk_synchronize_go _ _
  have := walk.length_le
  omega

/-- Where a condition that the end of input meets does not hold, a token is ahead. -/
theorem ahead_ne_nil_of_stop {stop : State → Bool} (ends : ∀ s, s.atEnd = true → stop s = true)
    (going : stop s = false) : s.ahead ≠ [] := by
  intro nothing
  have atEnd : s.atEnd = true := by rw [atEnd, nothing]; rfl
  rw [ends s atEnd] at going
  cases going

end ScriptLens.Parser.State

namespace ScriptLens.ParseM

open ScriptLens.Parser

variable {α β : Type} {b : Bool} {s : State}

/-- Success at a state leaves fewer tokens ahead. -/
def ConsumesAt (s : State) (m : ParseM α) : Prop :=
  ∀ a t, m.run s = (.ok a, t) → t.ahead.length < s.ahead.length

/-- Success leaves fewer tokens ahead. -/
def Consumes (m : ParseM α) : Prop := ∀ s : State, s.Closed → ConsumesAt s m

theorem ConsumesAt.bind {m : ParseM α} {f : α → ParseM β} (hm : ConsumesAt s m)
    (hf : ∀ a, Climbs b (f a)) : ConsumesAt s (m >>= f) := by
  intro c t h
  obtain ⟨a, u, first, rest⟩ := run_bind_eq_ok h
  exact Nat.lt_of_le_of_lt ((hf a).walk rest).length_le (hm a u first)

theorem consumesAt_get {f : State → ParseM β} (h : ConsumesAt s (f s)) : ConsumesAt s (get >>= f) :=
  h

theorem consumesAt_refuse (cause : ParseCause) : ConsumesAt s (refuse cause : ParseM α) := by
  intro a t h
  cases h

theorem consumesAt_advance (h : s.ahead ≠ []) : ConsumesAt s advance := by
  intro a t run
  cases run
  have shorter := State.advance_length h
  omega

theorem consumes_expect {kind : Kind} (hk : kind ≠ .eof) (what : Expected) :
    Consumes (expect kind what) := by
  intro s closed a t run
  rw [run_expect] at run
  split at run
  · next found => exact consumesAt_advance (State.ahead_ne_nil_of_check closed hk found) a t run
  · cases run

theorem Consumes.bind {m : ParseM α} {f : α → ParseM β} (hm : Consumes m)
    (hf : ∀ a, Climbs b (f a)) : Consumes (m >>= f) :=
  fun s closed => (hm s closed).bind hf

theorem Consumes.chain {m : ParseM α} (h : Consumes m) : Consumes (chain m) := by
  intro s closed a t run
  obtain ⟨u, inside, rfl⟩ := run_chain_eq_ok run
  exact h s closed a u inside

theorem Consumes.nested {m : ParseM α} (h : Consumes m) : Consumes (nested m) := by
  intro s closed a t run
  obtain ⟨_, u, inside, rfl⟩ := run_nested_eq_ok run
  exact h { s with depth := s.depth + 1 } closed a u inside

/-- A step of a loop that asks for more only if it has consumed something. -/
def Progresses (m : ParseM (α × Bool)) : Prop :=
  ∀ s, s.Closed → ∀ c t, m.run s = (.ok (c, true), t) → t.ahead.length < s.ahead.length

theorem progresses_stop (a : α) : Progresses (pure (a, false)) := by
  intro s closed c t run
  cases run

theorem Progresses.after {m : ParseM β} {f : β → ParseM (α × Bool)} (hm : Climbs b m)
    (hf : ∀ a, Progresses (f a)) : Progresses (m >>= f) := by
  intro s closed c t h
  obtain ⟨a, u, first, rest⟩ := run_bind_eq_ok h
  have walk := hm.walk first
  exact Nat.lt_of_lt_of_le (hf a u (closed.walk walk) c t rest) walk.length_le

/-- A step that consumes a token of some kind, or else goes on without it. -/
theorem progresses_eat {kind : Kind} (hk : kind ≠ .eof) {f : Bool → ParseM (α × Bool)}
    (found : Climbs b (f true)) (other : Progresses (f false)) : Progresses (eat kind >>= f) := by
  intro s closed c t run
  obtain ⟨eaten, u, first, rest⟩ := run_bind_eq_ok run
  rw [run_eat] at first
  split at first
  · next here =>
      cases first
      have shorter := State.advance_length (State.ahead_ne_nil_of_check closed hk here)
      have later := (found.walk rest).length_le
      omega
  · cases first
    exact other s closed c t rest

/-- The loop itself, which ends only when its step no longer asks for more. -/
inductive Loops (step : α → ParseM (α × Bool)) : α → State → Except ParseError α × State → Prop
  | failed {a s t e} : (step a).run s = (.error e, t) → Loops step a s (.error e, t)
  | stopped {a s t c} : (step a).run s = (.ok (c, false), t) → Loops step a s (.ok c, t)
  | again {a s t c outcome} : (step a).run s = (.ok (c, true), t) → Loops step c t outcome →
      Loops step a s outcome

/-- Only the first step of a loop reads the state it starts from. -/
theorem Loops.congr {step : α → ParseM (α × Bool)} {a : α} {s t : State}
    {outcome : Except ParseError α × State} (h : Loops step a s outcome)
    (same : (step a).run s = (step a).run t) : Loops step a t outcome := by
  cases h with
  | failed run => exact .failed (same ▸ run)
  | stopped run => exact .stopped (same ▸ run)
  | again run rest => exact .again (same ▸ run) rest

/-- A loop whose first step asks for more goes on from there. -/
theorem Loops.more {step : α → ParseM (α × Bool)} {a c : α} {s t : State}
    {outcome : Except ParseError α × State} (h : Loops step a s outcome)
    (run : (step a).run s = (.ok (c, true), t)) : Loops step c t outcome := by
  cases h with
  | failed run' => cases run.symm.trans run'
  | stopped run' => cases run.symm.trans run'
  | again run' rest =>
      cases run.symm.trans run'
      exact rest

theorem Loops.done {step : α → ParseM (α × Bool)} {a c : α} {s t : State}
    {outcome : Except ParseError α × State} (h : Loops step a s outcome)
    (run : (step a).run s = (.ok (c, false), t)) : outcome = (.ok c, t) := by
  cases h with
  | failed run' => cases run.symm.trans run'
  | stopped run' =>
      cases run.symm.trans run'
      rfl
  | again run' _ => cases run.symm.trans run'

theorem Loops.returns {step : α → ParseM (α × Bool)} (h : ∀ a, Returns b (step a)) {a : α}
    {s : State} {outcome : Except ParseError α × State} (loops : Loops step a s outcome) :
    Walk b s outcome.2 ∧ outcome.2.depth = s.depth := by
  induction loops with
  | failed run => exact ⟨(h _).walk run, (h _).depth run⟩
  | stopped run => exact ⟨(h _).walk run, (h _).depth run⟩
  | again run _ ih => exact ⟨((h _).walk run).trans ih.1, ih.2.trans ((h _).depth run)⟩

/-- A loop that progresses is run to its own end. -/
theorem loops_of_progresses {step : α → ParseM (α × Bool)} (h : ∀ a, Progresses (step a))
    (climbs : ∀ a, Climbs b (step a)) (a : α) (closed : s.Closed) :
    Loops step a s ((repeating step a).run s) := by
  have rounds := rounds_repeating step a s
  generalize (repeating step a).run s = outcome at rounds ⊢
  induction rounds with
  | failed run => exact .failed run
  | @stopped a s t c more run done =>
      cases more with
      | false => exact .stopped run
      | true => exact absurd ⟨rfl, h a s closed c t run⟩ done
  | again run _ _ ih => exact .again run (ih (closed.walk ((climbs _).walk run)))

end ScriptLens.ParseM

namespace ScriptLens.Parser

open ParseM

variable {α : Type} {inner : Level} {s : State}

/-- A rule that starts by consuming a token of some kind other than the end mark. -/
theorem consumesAt_advance_bind {f : Token → ParseM α} (closed : s.Closed)
    (kind : s.peek.kind ≠ .eof) (hf : ∀ a, Returns true (f a)) : ConsumesAt s (advance >>= f) :=
  (consumesAt_advance (State.ahead_ne_nil closed kind)).bind fun a => (hf a).climbs

theorem primary_consumes (hr : inner.Returns) : Consumes (primary inner) := by
  intro s closed
  refine consumesAt_get ?_
  dsimp only
  split
  case h_9 => exact consumesAt_refuse _
  case h_8 kind =>
    exact consumesAt_advance_bind closed (by simp [kind]) fun _ =>
      (expression_returns hr).loud.bind fun _ => (returns_expect _ _).bind fun _ => returns_pure _
  all_goals
    next kind => exact consumesAt_advance_bind closed (by simp [kind]) fun _ => returns_pure _

theorem postfixed_consumes (hr : inner.Returns) : Consumes (postfixed inner) :=
  Consumes.chain ((primary_consumes hr).bind fun e => Climbs.repeating (postfixLink_climbs hr) e)

theorem unary_consumes (hr : inner.Returns) : Consumes (unary inner) := by
  intro s closed
  refine consumesAt_get ?_
  dsimp only
  split
  case h_3 => exact postfixed_consumes hr s closed
  all_goals
    next kind => exact consumesAt_advance_bind closed (by simp [kind]) fun _ =>
      hr.unary.loud.nested.bind fun _ => returns_pure _

theorem leftChain_consumes {operator? : Kind → Option BinaryOp} {operand : ParseM Expr}
    (hr : Returns false operand) (h : Consumes operand) : Consumes (leftChain operator? operand) :=
  Consumes.chain (h.bind fun left => Climbs.repeating (binaryLink_climbs hr) left)

theorem disjunction_consumes (hr : inner.Returns) : Consumes (disjunction inner) := by
  have both : Returns false (disjunction inner) ∧ Consumes (disjunction inner) :=
    disjunction_of_operands (P := fun rule => Returns false rule ∧ Consumes rule)
      ⟨unary_returns hr, unary_consumes hr⟩
      fun _ _ _ operand => ⟨leftChain_returns operand.1, leftChain_consumes operand.1 operand.2⟩
  exact both.2

theorem assignment_consumes (hr : inner.Returns) : Consumes (assignment inner) := by
  refine (disjunction_consumes hr).bind fun target =>
    ((returns_check (b := false) _).bind fun assigned => ?_).climbs
  split
  · split
    · exact returns_advance.bind fun _ => hr.assignment.nested.bind fun _ => returns_pure _
    · exact returns_refuse _
  · exact returns_pure _

theorem itemLink_progresses {b : Bool} {item : ParseM α} (hr : Returns b item) (items : List α) :
    Progresses (itemLink item items) :=
  .after hr.climbs fun _ => .after (returns_skipNewlines (b := b)).climbs fun _ =>
    progresses_eat (by decide) (returns_skipNewlines.bind fun _ => returns_pure (b := b) _).climbs
      (progresses_stop _)

theorem postfixLink_progresses (hr : inner.Returns) (e : Expr) :
    Progresses (postfixLink inner e) := by
  refine progresses_eat (b := false) (by decide) ?_
    (progresses_eat (b := false) (by decide) ?_ (progresses_stop _))
  · exact climbs_link.bind fun _ =>
        (inParens_returns (expression_returns hr) _).climbs.bind fun _ =>
      (returns_get.bind fun _ => returns_pure _).climbs
  · refine climbs_link.bind fun _ => (returns_get.bind fun s => ?_).climbs
    dsimp only
    split
    · exact returns_advance.bind fun _ => returns_pure _
    · exact returns_refuse _

theorem binaryLink_progresses {operator? : Kind → Option BinaryOp} {operand : ParseM Expr}
    (hr : Returns false operand) (noEnd : operator? .eof = none) (left : Expr) :
    Progresses (binaryLink operator? operand left) := by
  intro s closed c t run
  obtain ⟨_, u, first, run⟩ := run_bind_eq_ok run
  cases first
  split at run
  · cases run
  · next operator found =>
      have here : s.peek.kind ≠ .eof := by
        intro atEnd
        rw [atEnd, noEnd] at found
        cases found
      have consumes : ConsumesAt s (advance >>= fun _ => link >>= fun _ => operand >>= fun right =>
          pure (binary operator left right, true)) :=
        (consumesAt_advance (State.ahead_ne_nil closed here)).bind fun _ =>
            climbs_link.bind fun _ =>
          hr.climbs.bind fun _ => (returns_pure _).climbs
      exact consumes _ t run

theorem variableLink_progresses (names : List String) : Progresses (variableLink names) :=
  progresses_eat (by decide) ((returns_expect (b := false) _ _).bind fun _ => returns_pure _).climbs
    (progresses_stop _)

end ScriptLens.Parser
