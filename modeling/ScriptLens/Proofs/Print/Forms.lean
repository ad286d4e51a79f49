import ScriptLens.Proofs.Parser.Progress
import ScriptLens.Proofs.Print.Reads

/-!
Rules that read printed statements. Without enough levels such a rule need not fail: a statement
inside it may have been dropped and noted instead, and nothing takes such a note back.
-/

namespace ScriptLens.ParseM

open ScriptLens.Parser

variable {α β : Type}

/-- The kind of the first token; behind the last one stands the end mark. -/
def headKind (tokens : List Token) : Kind := (tokens.head?.map (·.kind)).getD .eof

@[simp] theorem headKind_nil : headKind [] = .eof := rfl

@[simp] theorem headKind_cons (t : Token) (tokens : List Token) : headKind (t :: tokens) = t.kind :=
  rfl

theorem headKind_eq {final : Token} (closed : final.kind = .eof) (tokens : List Token) :
    (tokens.headD final).kind = headKind tokens := by
  cases tokens with
  | nil => exact closed
  | cons t rest => rfl

/-- A failure, or a success behind which a statement was dropped. -/
def Spoils (s : State) (outcome : Except ParseError α × State) : Prop :=
  (∃ e, outcome.1 = .error e) ∨ s.skipped.length < outcome.2.skipped.length

/-- With enough levels left the rule reads the words and gives a good result, provided that the
tokens behind the words allow it; otherwise something is lost. -/
def Forms (m : ParseM α) (words : List Word) (cost : Nat) (next : List Token → Prop)
    (good : α → Prop) : Prop :=
  ∀ (s : State) (tokens rest : List Token), s.Closed → Spells s.source words tokens →
    s.ahead = tokens ++ rest → next rest → s.depth ≤ maxDepth →
    (s.depth + cost ≤ maxDepth ∧ ∃ a t, m.run s = (.ok a, t) ∧ Past s 0 rest t ∧ good a) ∨
      (maxDepth < s.depth + cost ∧ Spoils s (m.run s))

/-- Some words, and what is allowed behind them, are allowed behind others. -/
def Follows (more : List Word) (next' next : List Token → Prop) : Prop :=
  ∀ source tokens rest, Spells source more tokens → next' rest → next (tokens ++ rest)

theorem follows_token (P : Kind → Prop) {kind : Kind} {text : String} {more : List Word}
    {next' : List Token → Prop} (h : P kind) : Follows (.token kind text :: more) next' fun rest =>
    P (headKind rest) := by
  intro source tokens rest spells _
  obtain ⟨t, others, rfl, rfl, _⟩ := spells.of_token
  exact h

theorem Heads.follows {P Q : Kind → Prop} {more : List Word} (h : Heads P more)
    (imp : ∀ kind, P kind → Q kind)
    {next' : List Token → Prop} : Follows more next' fun rest => Q (headKind rest) := by
  obtain ⟨kind, text, others, rfl, holds⟩ := h
  exact follows_token Q (imp kind holds)

theorem follows_any {more : List Word} {next' : List Token → Prop} :
    Follows more next' fun _ => True :=
  fun _ _ _ _ _ => trivial

theorem Past.closed {s t : State} {taken : Nat} {rest : List Token} (h : Past s taken rest t)
    (closed : s.Closed) : t.Closed := by
  rw [State.Closed, h.final]
  exact closed

namespace Forms

variable {m : ParseM α} {f : α → ParseM β} {words more : List Word} {c d : Nat}
variable {next next' : List Token → Prop} {good : α → Prop} {good' : β → Prop}

theorem of_reads {P : Kind → Prop} (h : Reads m words c P good) :
    Forms m words c (fun rest => P (headKind rest)) good := by
  intro s tokens rest closed spells ahead behind depth
  rcases h s tokens rest spells ahead ((headKind_eq closed rest).symm ▸ behind) depth with
    fits | ⟨exceeds, e, t, run⟩
  · exact .inl fits
  · refine .inr ⟨exceeds, .inl ⟨e, ?_⟩⟩
    rw [run]

/-- Something lost is not found again. -/
theorem spoils_bind {s : State} (h : Spoils s (m.run s)) (climbs : ∀ a, Climbs true (f a)) :
    Spoils s ((m >>= f).run s) := by
  rw [run_bind]
  generalize m.run s = outcome at h
  obtain ⟨result, t⟩ := outcome
  rcases h with ⟨e, failed⟩ | dropped
  · cases failed
    exact .inl ⟨e, rfl⟩
  · cases result with
    | error e => exact .inl ⟨e, rfl⟩
    | ok a => exact .inr (Nat.lt_of_lt_of_le dropped (climbs a t).1.skipped_le)

/-- A rule that goes on behind what another one has read. -/
theorem resume {m : ParseM β} (h : Forms m more d next' good') {s t : State}
    {second rest : List Token}
    (past : Past s 0 (second ++ rest) t) (closed : s.Closed) (there : Spells s.source more second)
    (behind : next' rest) (depth : s.depth ≤ maxDepth) :
    (s.depth + d ≤ maxDepth ∧ ∃ b u, m.run t = (.ok b, u) ∧ Past s 0 rest u ∧ good' b) ∨
      (maxDepth < s.depth + d ∧ Spoils s (m.run t)) := by
  have same : t.depth = s.depth := past.depth
  rcases h t second rest (past.closed closed) (past.source ▸ there) past.ahead behind
      (same ▸ depth) with
    ⟨fits, b, u, run, past', hb⟩ | ⟨exceeds, spoiled⟩
  · exact .inl ⟨same ▸ fits, b, u, run, past.trans past', hb⟩
  · rw [Spoils, past.skipped] at spoiled
    exact .inr ⟨same ▸ exceeds, spoiled⟩

theorem bind (hm : Forms m words c next good) (hf : ∀ a, good a → Forms (f a) more d next' good')
    (follows : Follows more next' next) (climbs : ∀ a, Climbs true (f a)) :
    Forms (m >>= f) (words ++ more) (max c d) next' good' := by
  intro s tokens rest closed spells ahead behind depth
  obtain ⟨first, second, rfl, here, there⟩ := spells.of_append
  rw [List.append_assoc] at ahead
  rcases hm s first (second ++ rest) closed here ahead (follows _ _ _ there behind) depth with
    ⟨fits, a, t, run, past, ha⟩ | ⟨exceeds, spoiled⟩
  · rw [run_bind_ok run]
    rcases (hf a ha).resume past closed there behind depth with ⟨fits', done⟩ | ⟨exceeds, spoiled⟩
    · exact .inl ⟨by omega, done⟩
    · exact .inr ⟨by omega, spoiled⟩
  · exact .inr ⟨by omega, spoils_bind spoiled climbs⟩

/-- A rule that fails when it runs out of levels, then another one. -/
theorem after {P : Kind → Prop} (hm : Reads m words c P good)
    (hf : ∀ a, good a → Forms (f a) more d next' good')
    (follows : Follows more next' fun rest => P (headKind rest)) :
    Forms (m >>= f) (words ++ more) (max c d) next' good' := by
  intro s tokens rest closed spells ahead behind depth
  obtain ⟨first, second, rfl, here, there⟩ := spells.of_append
  rw [List.append_assoc] at ahead
  have allowed : P (headKind (second ++ rest)) := follows _ _ _ there behind
  rw [← headKind_eq closed] at allowed
  rcases hm s first (second ++ rest) here ahead allowed depth with
    ⟨fits, a, t, run, past, ha⟩ | ⟨exceeds, e, t, run⟩
  · rw [run_bind_ok run]
    rcases (hf a ha).resume past closed there behind depth with ⟨fits', done⟩ | ⟨exceeds, spoiled⟩
    · exact .inl ⟨by omega, done⟩
    · exact .inr ⟨by omega, spoiled⟩
  · refine .inr ⟨by omega, .inl ⟨e, ?_⟩⟩
    rw [run_bind_error run]

/-- A rule that takes no level, then another one. -/
theorem free {P : Kind → Prop} (hm : Reads m words 0 P good)
    (hf : ∀ a, good a → Forms (f a) more d next' good')
    (follows : Follows more next' fun rest => P (headKind rest)) :
    Forms (m >>= f) (words ++ more) d next' good' := by
  have both := after hm hf follows
  rw [Nat.zero_max] at both
  exact both

theorem word {w : Word} (hm : Reads m [w] 0 (fun _ => True) good)
    (hf : ∀ a, good a → Forms (f a) more d next' good') :
    Forms (m >>= f) (w :: more) d next' good' :=
  free hm hf follows_any

theorem skip {P : Kind → Prop} (hm : Reads m [] 0 P good)
    (hf : ∀ a, good a → Forms (f a) more d next' good')
    (follows : Follows more next' fun rest => P (headKind rest)) :
    Forms (m >>= f) more d next' good' :=
  free hm hf follows

theorem weaken (h : Forms m words c next good) {good'' : α → Prop} (imp : ∀ a, good a → good'' a)
    (le : ∀ rest, next' rest → next rest) : Forms m words c next' good'' := by
  intro s tokens rest closed spells ahead behind depth
  rcases h s tokens rest closed spells ahead (le _ behind) depth with
    ⟨fits, a, t, run, past, ha⟩ | lost
  · exact .inl ⟨fits, a, t, run, past, imp a ha⟩
  · exact .inr lost

theorem wrap (hm : Forms m words c next good) {g : α → β} (hg : ∀ a, good a → good' (g a)) :
    Forms (m >>= fun a => pure (g a)) words c next good' := by
  intro s tokens rest closed spells ahead behind depth
  rcases hm s tokens rest closed spells ahead behind depth with
    ⟨fits, a, t, run, past, ha⟩ | ⟨exceeds, spoiled⟩
  · exact .inl ⟨fits, g a, t, run_bind_ok run, past, hg a ha⟩
  · exact .inr ⟨exceeds, spoils_bind spoiled fun _ => (returns_pure _).climbs⟩

/-- A rule whose result is wrapped with a span. -/
theorem wrapSpan (hm : Forms m words c next good) {g : α → State → β}
    (hg : ∀ a s, good a → good' (g a s)) :
    Forms (m >>= fun a => get >>= fun s => pure (g a s)) words c next good' := by
  intro s tokens rest closed spells ahead behind depth
  rcases hm s tokens rest closed spells ahead behind depth with
    ⟨fits, a, t, run, past, ha⟩ | ⟨exceeds, spoiled⟩
  · exact .inl ⟨fits, g a t, t, run_bind_ok run, past, hg a t ha⟩
  · exact .inr
      ⟨exceeds, spoils_bind spoiled fun _ => (returns_get.bind fun _ => returns_pure _).climbs⟩

theorem nested (h : Forms m words c next good) :
    Forms (ParseM.nested m) words (c + 1) next good := by
  intro s tokens rest closed spells ahead behind depth
  rw [run_nested]
  split
  · exact .inr ⟨by omega, .inl ⟨_, rfl⟩⟩
  · next below =>
      have entered : s.depth + 1 ≤ maxDepth := by omega
      rcases h { s with depth := s.depth + 1 } tokens rest closed spells ahead behind entered with
        ⟨fits, a, t, run, past, ha⟩ | ⟨exceeds, spoiled⟩
      · have within : s.depth + 1 + c ≤ maxDepth := fits
        rw [run]
        exact .inl ⟨by omega, a, _, rfl, past.surface, ha⟩
      · have beyond : maxDepth < s.depth + 1 + c := exceeds
        exact .inr ⟨by omega, spoiled⟩

end Forms

/-- A rule that looks at the state first. -/
theorem forms_get {f : State → ParseM β} {words : List Word} {c : Nat} {next : List Token → Prop}
    {good : β → Prop} (P : State → Prop)
    (here : ∀ (s : State) (tokens rest : List Token), s.Closed → Spells s.source words tokens →
      s.ahead = tokens ++ rest → next rest → P s)
    (h : ∀ s, P s → Forms (f s) words c next good) : Forms (get >>= f) words c next good := by
  intro s tokens rest closed spells ahead behind depth
  exact h s
    (here s tokens rest closed spells ahead behind) s tokens rest closed spells ahead behind depth

namespace Forms

variable {step : α → ParseM (α × Bool)} {a : α} {words more : List Word} {c d : Nat}
variable {next next' : List Token → Prop} {good' : α → Prop}

theorem spoils_repeating {s : State} (h : Spoils s ((step a).run s))
    (climbs : ∀ b, Climbs true (step b)) : Spoils s ((repeating step a).run s) := by
  have rounds := rounds_repeating step a s
  generalize (repeating step a).run s = outcome at rounds ⊢
  cases rounds with
  | failed => exact .inl ⟨_, rfl⟩
  | stopped run _ =>
      rw [run] at h
      rcases h with ⟨e, failed⟩ | dropped
      · cases failed
      · exact .inr dropped
  | @again _ _ t c _ run _ rest =>
      rw [run] at h
      rcases h with ⟨e, failed⟩ | dropped
      · cases failed
      · rw [← rest.run]
        exact .inr (Nat.lt_of_lt_of_le dropped (Climbs.repeating climbs c t).1.skipped_le)

theorem repeating_stop (good : α → Prop)
    (h : Forms (step a) words c next fun result => result.2 = false ∧ good result.1)
    (climbs : ∀ b, Climbs true (step b)) : Forms (repeating step a) words c next good := by
  intro s tokens rest closed spells ahead behind depth
  rcases h s tokens rest closed spells ahead behind depth with
    ⟨fits, ⟨b, again⟩, t, run, past, hb⟩ | ⟨exceeds, spoiled⟩
  · obtain ⟨rfl, hb⟩ := hb
    exact .inl ⟨fits, b, t, run_repeating_stopped run, past, hb⟩
  · exact .inr ⟨exceeds, spoils_repeating spoiled climbs⟩

/-- A step that asks for more, then the rest of the loop. -/
theorem repeating_more (good : α → Prop)
    (h : Forms (step a) words c next fun result => result.2 = true ∧ good result.1)
    (nonempty : ∀ source tokens, Spells source words tokens → tokens ≠ [])
    (later : ∀ b, good b → Forms (repeating step b) more d next' good')
    (follows : Follows more next' next) (climbs : ∀ b, Climbs true (step b)) :
    Forms (repeating step a) (words ++ more) (max c d) next' good' := by
  intro s tokens rest closed spells ahead behind depth
  obtain ⟨first, second, rfl, here, there⟩ := spells.of_append
  rw [List.append_assoc] at ahead
  rcases h s first (second ++ rest) closed here ahead (follows _ _ _ there behind) depth with
    ⟨fits, ⟨b, again⟩, t, run, past, hb⟩ | ⟨exceeds, spoiled⟩
  · obtain ⟨rfl, hb⟩ := hb
    rw [run_repeating_again run (past.shorter ahead (nonempty _ _ here))]
    rcases (later b hb).resume past closed there behind depth with
      ⟨fits', done⟩ | ⟨exceeds, spoiled⟩
    · exact .inl ⟨by omega, done⟩
    · exact .inr ⟨by omega, spoiled⟩
  · exact .inr ⟨by omega, spoils_repeating spoiled climbs⟩

end Forms

end ScriptLens.ParseM
