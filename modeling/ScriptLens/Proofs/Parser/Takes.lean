import ScriptLens.Proofs.Parser.Progress

/-!
What a rule consumes where it succeeds: the tokens it takes off, with a property of these tokens,
the result and the state behind them. Nothing is said of a rule that fails; recovery goes on from
there whatever it left.
-/

namespace ScriptLens

namespace Parser

/-- Between two states some tokens were consumed. -/
structure Taken (s : State) (ts : List Token) (t : State) : Prop where
  ahead : s.ahead = ts ++ t.ahead
  final : t.final = s.final

namespace Taken

variable {s t u : State} {ts us : List Token}

theorem refl : Taken s [] s := ⟨rfl, rfl⟩

theorem trans (first : Taken s ts t) (second : Taken t us u) : Taken s (ts ++ us) u :=
  ⟨by rw [first.ahead, second.ahead, List.append_assoc], second.final.trans first.final⟩

theorem closed (h : Taken s ts t) (closed : s.Closed) : t.Closed := by
  rw [State.Closed, h.final]
  exact closed

theorem length_eq (h : Taken s ts t) : s.ahead.length = ts.length + t.ahead.length := by
  rw [h.ahead, List.length_append]

theorem shorter (h : Taken s ts t) (some : ts ≠ []) : t.ahead.length < s.ahead.length := by
  have positive := List.length_pos_iff.mpr some
  have := h.length_eq
  omega

theorem ne_nil (h : Taken s ts t) (shorter : t.ahead.length < s.ahead.length) : ts ≠ [] := by
  rintro rfl
  rw [h.length_eq, List.length_nil] at shorter
  omega

theorem redepth (h : Taken s ts t) (depth : Nat) : Taken s ts { t with depth := depth } :=
  ⟨h.ahead, h.final⟩

theorem advance (going : s.ahead ≠ []) : Taken s [s.peek] s.advance := by
  obtain ⟨first, rest, ahead⟩ := List.exists_cons_of_ne_nil going
  rw [State.advance_of_cons ahead, State.peek, ahead]
  exact ⟨ahead, rfl⟩

theorem skipNewlines (s : State) : ∃ ts, Taken s ts s.skipNewlines ∧ ∀ t ∈ ts,
    t.kind = .newline := by
  have go (rest : List Token) (s : State) (ahead : s.ahead = rest) :
      ∃ ts, Taken s ts (State.skipNewlines.go rest s) ∧ ∀ t ∈ ts, t.kind = .newline := by
    induction rest generalizing s with
    | nil => exact ⟨[], .refl, by simp⟩
    | cons first rest ih =>
        rw [State.skipNewlines.go]
        split
        · next newline =>
            have going : s.ahead ≠ [] := by simp [ahead]
            have here : s.peek = first := by rw [State.peek, ahead]; rfl
            obtain ⟨ts, taken, newlines⟩ := ih s.advance (by rw [State.advance_of_cons ahead])
            refine ⟨s.peek :: ts, (Taken.advance going).trans taken, ?_⟩
            intro t member
            rcases List.mem_cons.mp member with rfl | later
            · rw [here]
              exact newline
            · exact newlines t later
        · exact ⟨[], .refl, by simp⟩
  exact go s.ahead s rfl

end Taken

end Parser

namespace ParseM

open ScriptLens.Parser

variable {α β : Type} {s : State} {m : ParseM α} {Q : α → List Token → State → Prop}
  {R : β → List Token → State → Prop}

/-- Where the rule succeeds it has consumed tokens with a property. -/
def Takes (s : State) (m : ParseM α) (Q : α → List Token → State → Prop) : Prop :=
  ∀ a t, m.run s = (.ok a, t) → ∃ ts, Taken s ts t ∧ Q a ts t

theorem Takes.bind {f : α → ParseM β} (hm : Takes s m Q)
    (hf : ∀ a ts t, Taken s ts t → Q a ts t → Takes t (f a) fun b us u => R b (ts ++ us) u) :
    Takes s (m >>= f) R := by
  intro b u run
  obtain ⟨a, t, first, rest⟩ := run_bind_eq_ok run
  obtain ⟨ts, taken, holds⟩ := hm a t first
  obtain ⟨us, taken', holds'⟩ := hf a ts t taken holds b u rest
  exact ⟨ts ++ us, taken.trans taken', holds'⟩

theorem Takes.weaken {Q' : α → List Token → State → Prop} (h : Takes s m Q)
    (less : ∀ a ts t, Taken s ts t → Q a ts t → Q' a ts t) : Takes s m Q' := by
  intro a t run
  obtain ⟨ts, taken, holds⟩ := h a t run
  exact ⟨ts, taken, less a ts t taken holds⟩

theorem takes_get {f : State → ParseM β} (h : Takes s (f s) R) : Takes s (get >>= f) R := h

theorem takes_pure {a : α} (h : Q a [] s) : Takes s (pure a) Q := by
  intro b t run
  cases run
  exact ⟨[], .refl, h⟩

theorem takes_refuse (cause : ParseCause) : Takes s (refuse cause) Q := by
  intro a t run
  cases run

theorem takes_link : Takes s link fun _ ts t => ts = [] ∧ t.ahead = s.ahead := by
  intro a t run
  rw [run_link] at run
  split at run
  · cases run
  · cases run
    exact ⟨[], ⟨rfl, rfl⟩, rfl, rfl⟩

theorem takes_check (kind : Kind) : Takes s (check kind) fun found ts t =>
    ts = [] ∧ s = t ∧ found = s.check kind := by
  intro found t run
  cases run
  exact ⟨[], .refl, rfl, rfl, rfl⟩

theorem takes_skipNewlines : Takes s skipNewlines fun _ ts _ => ∀ t ∈ ts, t.kind = .newline := by
  intro _ t run
  cases run
  exact Taken.skipNewlines s

theorem takes_advance (closed : s.Closed) (other : s.peek.kind ≠ .eof) :
    Takes s advance fun a ts t => a = s.peek ∧ ts = [a] ∧ t = s.advance := by
  intro a t run
  cases run
  exact ⟨[s.peek], .advance (State.ahead_ne_nil closed other), rfl, rfl, rfl⟩

theorem takes_expect (closed : s.Closed) {kind : Kind} (other : kind ≠ .eof) (what : Expected) :
    Takes s (expect kind what) fun a ts _ => a = s.peek ∧ ts = [a] ∧ a.kind = kind := by
  intro a t run
  rw [run_expect] at run
  split at run
  · next found =>
      cases run
      have here : s.peek.kind = kind := of_decide_eq_true found
      exact ⟨[s.peek], .advance (State.ahead_ne_nil_of_check closed other found), rfl, rfl, here⟩
  · cases run

theorem takes_eat (closed : s.Closed) {kind : Kind} (other : kind ≠ .eof) :
    Takes s (eat kind) fun eaten ts t => eaten = true ∧ ts = [s.peek] ∧ s.peek.kind = kind ∨
      eaten = false ∧ ts = [] ∧ s = t ∧ s.peek.kind ≠ kind := by
  intro eaten t run
  rw [run_eat] at run
  split at run
  · next found =>
      cases run
      have here : s.peek.kind = kind := of_decide_eq_true found
      exact ⟨[s.peek], .advance (State.ahead_ne_nil_of_check closed other found),
        .inl ⟨rfl, rfl, here⟩⟩
  · next missing =>
      cases run
      exact ⟨[], .refl, .inr ⟨rfl, rfl, rfl, fun same => missing (decide_eq_true same)⟩⟩

/-- A rule that walks consumes some tokens. -/
theorem takes_any {loud : Bool} (h : Climbs loud m) : Takes s m fun _ _ _ => True := by
  intro a t run
  have walk := h.walk run
  obtain ⟨ts, ahead⟩ := walk.suffix
  exact ⟨ts, ⟨ahead.symm, walk.final⟩, trivial⟩

/-- Levels make no difference to what is consumed. -/
theorem Takes.nested (h : Takes { s with depth := s.depth + 1 } m Q)
    (free : ∀ a ts t depth, Q a ts t → Q a ts { t with depth := depth }) :
    Takes s (nested m) Q := by
  intro a t run
  obtain ⟨_, u, inside, rfl⟩ := run_nested_eq_ok run
  obtain ⟨ts, taken, holds⟩ := h a u inside
  exact ⟨ts, ⟨taken.ahead, taken.final⟩, free a ts u _ holds⟩

theorem Takes.chain (h : Takes s m Q)
    (free : ∀ a ts t depth, Q a ts t → Q a ts { t with depth := depth }) : Takes s (chain m) Q := by
  intro a t run
  obtain ⟨u, inside, rfl⟩ := run_chain_eq_ok run
  obtain ⟨ts, taken, holds⟩ := h a u inside
  exact ⟨ts, taken.redepth _, free a ts u _ holds⟩

/-- A statement parses, or it is dropped together with what recovery passed over. -/
theorem takes_recovered {inner : Level} {Q : Option Stmt → List Token → State → Prop}
    (returns : inner.Returns)
    (parsed : Takes s.begin (nested inner.statement) fun stmt ts t => Q (some stmt) ts t)
    (dropped : ∀ e u ts, (nested inner.statement).run s.begin = (.error e, u) → Taken s ts
      (u.recover s.peek e) → Q none ts (u.recover s.peek e)) : Takes s (recovered inner) Q := by
  intro stmt t run
  cases stmt with
  | none =>
      obtain ⟨ts, taken, _⟩ := takes_any (recovered_returns returns).climbs none t run
      obtain ⟨e, u, failed, rfl⟩ := run_recovered_eq_none run
      exact ⟨ts, taken, dropped e u ts failed taken⟩
  | some stmt =>
      obtain ⟨ts, taken, holds⟩ := parsed stmt t (run_recovered_eq_some run)
      exact ⟨ts, ⟨taken.ahead, taken.final⟩, holds⟩

/-- A loop goes on where a step asks for more and has consumed something, and ends where it does
not. -/
theorem takes_rounds {P : α → List Token → State → Prop} {step : α → ParseM (α × Bool)} {a : α}
    (start : P a [] s)
    (h : ∀ a ts t, Taken s ts t → P a ts t → Takes t (step a) fun next us u =>
      if next.2 = true ∧ us ≠ [] then P next.1 (ts ++ us) u else Q next.1 (ts ++ us) u) :
        Takes s (repeating step a) Q := by
  have go (a : α) (ts : List Token) (t : State) (taken : Taken s ts t) (holds : P a ts t) :
      Takes t (repeating step a) fun b us u => Q b (ts ++ us) u := by
    intro b u run
    replace run := rounds_of_run run
    generalize ended : (Except.ok b, u) = outcome at run
    induction run generalizing ts with
    | failed => cases ended
    | stopped run done =>
        cases ended
        obtain ⟨us, taken', ends⟩ := h _ ts _ taken holds _ u run
        refine ⟨us, taken', ?_⟩
        rwa [if_neg (fun moves => done (moves.imp id taken'.shorter))] at ends
    | again run shorter _ ih =>
        obtain ⟨us, taken', goes⟩ := h _ ts _ taken holds _ _ run
        rw [if_pos ⟨rfl, taken'.ne_nil shorter⟩] at goes
        obtain ⟨vs, taken'', holds'⟩ := ih (ts ++ us) (taken.trans taken') goes ended
        rw [List.append_assoc] at holds'
        exact ⟨us ++ vs, taken'.trans taken'', holds'⟩
  exact go a [] s .refl start

/-- A loop goes on only from what a step leaves when it asks for more. -/
theorem takes_repeating {P : α → List Token → State → Prop} {step : α → ParseM (α × Bool)} {a : α}
    (start : P a [] s) (h : ∀ a ts t, Taken s ts t → P a ts t → Takes t (step a) fun next us u =>
      Q next.1 (ts ++ us) u ∧ (next.2 = true → P next.1 (ts ++ us) u)) :
      Takes s (repeating step a) Q := by
  refine takes_rounds start fun a ts t taken holds => (h a ts t taken holds).weaken ?_
  rintro next us u _ ⟨ends, goes⟩
  split
  · next moves => exact goes moves.1
  · exact ends

/-- A loop whose steps consume something whenever they ask for more. -/
theorem takes_repeating_moving {P : α → List Token → State → Prop}
    {step : α → ParseM (α × Bool)} {a : α}
    (start : P a [] s) (h : ∀ a ts t, Taken s ts t → P a ts t → Takes t (step a) fun next us u =>
      if next.2 = true then us ≠ [] ∧ P next.1 (ts ++ us) u else Q next.1 (ts ++ us) u) :
        Takes s (repeating step a) Q := by
  refine takes_rounds start fun a ts t taken holds => (h a ts t taken holds).weaken ?_
  rintro ⟨b, more⟩ us u _ step
  cases more with
  | false => simpa using step
  | true =>
      obtain ⟨some, goes⟩ := step
      simpa [some] using goes

/-- What every step of a loop keeps holds of all that the loop consumed. -/
theorem takes_loop {step : α → ParseM (α × Bool)} {a : α} (start : Q a [] s) (h : ∀ a ts t,
      Taken s ts t → Q a ts t → Takes t (step a) fun next us u => Q next.1 (ts ++ us) u) :
    Takes s (repeating step a) Q :=
  takes_repeating start fun a ts t taken holds =>
    (h a ts t taken holds).weaken fun _ _ _ _ kept => ⟨kept, fun _ => kept⟩

end ParseM

end ScriptLens
