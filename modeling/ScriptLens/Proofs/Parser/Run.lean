import ScriptLens.Parser.Stmt

/-!
How rules run: each building block of the grammar as an equation between states and outcomes, and
what a block that ended in some way has done.
-/

namespace ScriptLens.ParseM

open ScriptLens.Parser

variable {α β : Type}

@[simp] theorem run_pure (a : α) (s : State) : (pure a : ParseM α).run s = (.ok a, s) := rfl

theorem run_bind (m : ParseM α) (f : α → ParseM β) (s : State) :
    (m >>= f).run s = match m.run s with
      | (.ok a, t) => (f a).run t
      | (.error e, t) => (.error e, t) := by
  change (ExceptT.bindCont f (m.run s).1) (m.run s).2 = _
  rcases m.run s with ⟨result, t⟩
  cases result <;> rfl

theorem run_bind_ok {m : ParseM α} {f : α → ParseM β} {s t : State} {a : α}
    (h : m.run s = (.ok a, t)) : (m >>= f).run s = (f a).run t := by
  rw [run_bind, h]

theorem run_bind_error {m : ParseM α} {f : α → ParseM β} {s t : State} {e : ParseError}
    (h : m.run s = (.error e, t)) : (m >>= f).run s = (.error e, t) := by
  rw [run_bind, h]

@[simp] theorem run_get (s : State) : (get : ParseM State).run s = (.ok s, s) := rfl

@[simp] theorem run_refuse (cause : ParseCause) (s : State) :
    (refuse cause : ParseM α).run s = (.error ⟨cause, s.peek⟩, s) := rfl

@[simp] theorem run_advance (s : State) : advance.run s = (.ok s.peek, s.advance) := rfl

@[simp] theorem run_check (kind : Kind) (s : State) :
    (check kind).run s = (.ok (s.check kind), s) :=
  rfl

theorem run_eat (kind : Kind) (s : State) :
    (eat kind).run s = if s.check kind then (.ok true, s.advance) else (.ok false, s) := by
  rw [eat, run_bind_ok (run_check kind s)]
  split <;> rfl

theorem run_expect (kind : Kind) (what : Expected) (s : State) :
    (expect kind what).run s = if s.check kind then (.ok s.peek, s.advance)
      else (.error ⟨.expected what, s.peek⟩, s) := by
  rw [expect, run_bind_ok (run_check kind s)]
  split <;> rfl

@[simp] theorem run_skipNewlines (s : State) : skipNewlines.run s = (.ok ⟨⟩, s.skipNewlines) := rfl

theorem run_nested (rule : ParseM α) (s : State) :
    (nested rule).run s = if maxDepth ≤ s.depth then (.error ⟨.nestedTooDeeply, s.peek⟩, s)
      else ((rule.run { s with depth := s.depth + 1 }).1,
        { (rule.run { s with depth := s.depth + 1 }).2 with
          depth := (rule.run { s with depth := s.depth + 1 }).2.depth - 1 }) := by
  rw [nested, run_bind_ok (run_get s)]
  split <;> rfl

theorem run_chain (rule : ParseM α) (s : State) :
    (chain rule).run s = ((rule.run s).1, { (rule.run s).2 with depth := s.depth }) := rfl

theorem run_link (s : State) :
    link.run s = if maxDepth ≤ s.depth then (.error ⟨.chainTooLong, s.peek⟩, s)
      else (.ok ⟨⟩, { s with depth := s.depth + 1 }) := by
  rw [link, run_bind_ok (run_get s)]
  split <;> rfl

theorem run_repeating (step : α → ParseM (α × Bool)) (a : α) (s : State) :
    (repeating step a).run s = match (step a).run s with
      | (.error e, t) => (.error e, t)
      | (.ok (b, more), t) =>
        if more ∧ t.ahead.length < s.ahead.length then (repeating step b).run
            t else (.ok b, t) := by
  change repeating.go step a s = _
  rw [repeating.go]
  rfl

section Loop

variable {step : α → ParseM (α × Bool)} {a b : α} {s t : State} {e : ParseError}

theorem run_repeating_failed (run : (step a).run s = (.error e, t)) :
    (repeating step a).run s = (.error e, t) := by
  rw [run_repeating, run]

theorem run_repeating_stopped (run : (step a).run s = (.ok (b, false), t)) :
    (repeating step a).run s = (.ok b, t) := by
  rw [run_repeating, run]
  exact if_neg (fun more => Bool.false_ne_true more.1)

theorem run_repeating_again (run : (step a).run s = (.ok (b, true), t))
    (shorter : t.ahead.length < s.ahead.length) :
    (repeating step a).run s = (repeating step b).run t := by
  rw [run_repeating, run]
  exact if_pos ⟨rfl, shorter⟩

end Loop

theorem run_recovered (inner : Level) (s : State) :
    (recovered inner).run s = match (nested inner.statement).run s.begin with
      | (.ok stmt, t) => (.ok (some stmt), t)
      | (.error e, t) => (.ok none, t.recover s.peek e) := rfl

section Inversion

variable {m rule : ParseM α} {f : α → ParseM β} {inner : Level} {s t : State} {a : α} {c : β}
  {e : ParseError}

theorem run_bind_eq_ok (h : (m >>= f).run s = (.ok c, t)) :
    ∃ a u, m.run s = (.ok a, u) ∧ (f a).run u = (.ok c, t) := by
  rw [run_bind] at h
  generalize hm : m.run s = outcome at h
  obtain ⟨result, u⟩ := outcome
  cases result with
  | error e => cases h
  | ok a => exact ⟨a, u, rfl, h⟩

theorem run_bind_eq_error (h : (m >>= f).run s = (.error e, t)) :
    m.run s = (.error e, t) ∨ ∃ a u, m.run s = (.ok a, u) ∧ (f a).run u = (.error e, t) := by
  rw [run_bind] at h
  generalize hm : m.run s = outcome at h
  obtain ⟨result, u⟩ := outcome
  cases result with
  | error e' =>
      cases h
      exact .inl rfl
  | ok a => exact .inr ⟨a, u, rfl, h⟩

theorem run_nested_eq_ok (h : (nested rule).run s = (.ok a, t)) :
    s.depth < maxDepth ∧ ∃ u, rule.run { s with depth := s.depth + 1 } = (.ok a, u) ∧
      t = { u with depth := u.depth - 1 } := by
  rw [run_nested] at h
  split at h
  · cases h
  · next below =>
      obtain ⟨result, left⟩ := Prod.mk.inj h
      exact ⟨Nat.lt_of_not_le below, _, Prod.ext result rfl, left.symm⟩

theorem run_chain_eq_ok (h : (chain rule).run s = (.ok a, t)) :
    ∃ u, rule.run s = (.ok a, u) ∧ t = { u with depth := s.depth } := by
  rw [run_chain] at h
  obtain ⟨result, left⟩ := Prod.mk.inj h
  exact ⟨_, Prod.ext result rfl, left.symm⟩

theorem run_recovered_eq_some {stmt : Stmt} (h : (recovered inner).run s = (.ok (some stmt), t)) :
    (nested inner.statement).run s.begin = (.ok stmt, t) := by
  rw [run_recovered] at h
  split at h
  · next run =>
      cases h
      exact run
  · cases h

theorem run_recovered_eq_none (h : (recovered inner).run s = (.ok none, t)) :
    ∃ e u, (nested inner.statement).run s.begin = (.error e, u) ∧ t = u.recover s.peek e := by
  rw [run_recovered] at h
  split at h
  · cases h
  · next e u run =>
      cases h
      exact ⟨e, u, run, rfl⟩

end Inversion

/-- The rounds of a loop. It goes on only while its step asks for more, and ends where the step does
not, or asks for more without having consumed a token. -/
inductive Rounds (step : α → ParseM (α × Bool)) : α → State → Except ParseError α × State → Prop
  | failed {a s t e} : (step a).run s = (.error e, t) → Rounds step a s (.error e, t)
  | stopped {a s t c more} : (step a).run s = (.ok (c, more), t) →
      ¬(more = true ∧ t.ahead.length < s.ahead.length) → Rounds step a s (.ok c, t)
  | again {a s t c outcome} : (step a).run s = (.ok (c, true), t) →
      t.ahead.length < s.ahead.length → Rounds step c t outcome → Rounds step a s outcome

/-- What a loop does is done in rounds: properties of loops are shown by induction on them. -/
theorem rounds_repeating (step : α → ParseM (α × Bool)) (a : α) (s : State) :
    Rounds step a s ((repeating step a).run s) := by
  induction size : s.ahead.length using Nat.strongRecOn generalizing a s with
  | _ n ih =>
      rw [run_repeating]
      generalize first : (step a).run s = outcome
      obtain ⟨result, t⟩ := outcome
      cases result with
      | error e => exact .failed first
      | ok next =>
          obtain ⟨c, more⟩ := next
          dsimp only
          split
          · next shorter =>
              obtain ⟨rfl, shorter⟩ := shorter
              exact .again first shorter (ih _ (size ▸ shorter) c t rfl)
          · next done => exact .stopped first done

theorem rounds_of_run {step : α → ParseM (α × Bool)} {a : α} {s : State}
    {outcome : Except ParseError α × State}
    (run : (repeating step a).run s = outcome) : Rounds step a s outcome :=
  run ▸ rounds_repeating step a s

/-- There is only one way to go round. -/
theorem Rounds.run {step : α → ParseM (α × Bool)} {a : α} {s : State}
    {outcome : Except ParseError α × State}
    (h : Rounds step a s outcome) : (repeating step a).run s = outcome := by
  induction h with
  | failed run => exact run_repeating_failed run
  | stopped run done =>
      rw [run_repeating, run]
      exact if_neg done
  | again run shorter _ ih => exact (run_repeating_again run shorter).trans ih

end ScriptLens.ParseM
