import ScriptLens.Proofs.Parser.Levels
import ScriptLens.Proofs.Print.Trees

/-!
Rules that read printed words. A rule either reads its words and gives what was printed, or it runs
out of levels and fails; which of the two happens is decided by the levels it takes.
-/

namespace ScriptLens

open ScriptLens.Parser

/-- Tokens that are the value of a directive: a text of the script on one line. -/
structure IsValue (source : List Char) (text : String) (tokens : List Token) : Prop where
  kinds : ∀ t ∈ tokens, t.kind ≠ .newline ∧ t.kind ≠ .eof ∧ t.kind ≠ .comment
  ends : ∃ first last, tokens.head? = some first ∧ tokens.getLast? = some last ∧
    Text.slice? source first.start.offset last.stop.offset = some text.toList

/-- Tokens that spell words. -/
inductive Spells (source : List Char) : List Word → List Token → Prop
  | nil : Spells source [] []
  | token {t words tokens} : Spells source words tokens →
      Spells source (.token t.kind t.text :: words) (t :: tokens)
  | value {text part words tokens} : IsValue source text part → Spells source words tokens →
      Spells source (.value text :: words) (part ++ tokens)

namespace Spells

variable {source : List Char} {words more : List Word} {tokens : List Token}

theorem of_token {kind : Kind} {text : String}
    (h : Spells source (.token kind text :: words) tokens) :
    ∃ t rest, tokens = t :: rest ∧ t.kind = kind ∧ t.text = text ∧ Spells source words rest := by
  cases h with
  | token rest => exact ⟨_, _, rfl, rfl, rfl, rest⟩

theorem of_append (h : Spells source (words ++ more) tokens) : ∃ first second,
    tokens = first ++ second ∧ Spells source words first ∧ Spells source more second := by
  induction words generalizing tokens with
  | nil => exact ⟨[], tokens, rfl, .nil, h⟩
  | cons w words ih =>
      cases h with
      | token rest =>
          obtain ⟨first, second, rfl, spells, behind⟩ := ih rest
          exact ⟨_ :: first, second, rfl, .token spells, behind⟩
      | value part rest =>
          obtain ⟨first, second, rfl, spells, behind⟩ := ih rest
          exact ⟨_, second, (List.append_assoc _ _ _).symm, .value part spells, behind⟩

theorem single (source : List Char) (t : Token) : Spells source [.token t.kind t.text] [t] :=
  .token .nil

theorem append {before behind : List Token} (first : Spells source words before)
    (second : Spells source more behind) : Spells source (words ++ more) (before ++ behind) := by
  induction first with
  | nil => exact second
  | token _ ih => exact .token ih
  | value part _ ih =>
      rw [List.append_assoc]
      exact .value part ih

end Spells

namespace ParseM

/-- The state behind some tokens, with levels taken on the way. -/
structure Past (s : State) (taken : Nat) (rest : List Token) (t : State) : Prop where
  ahead : t.ahead = rest
  depth : t.depth = s.depth + taken
  source : t.source = s.source
  final : t.final = s.final
  skipped : t.skipped = s.skipped

theorem Past.trans {s t u : State} {i j : Nat} {rest behind : List Token} (first : Past s i rest t)
    (second : Past t j behind u) : Past s (i + j) behind u :=
  ⟨second.ahead, by rw [second.depth, first.depth, Nat.add_assoc], second.source.trans first.source,
    second.final.trans first.final, second.skipped.trans first.skipped⟩

theorem Past.shorter {s t : State} {i : Nat} {tokens rest : List Token} (h : Past s i rest t)
    (ahead : s.ahead = tokens ++ rest) (some : tokens ≠ []) : t.ahead.length < s.ahead.length := by
  have positive := List.length_pos_iff.mpr some
  rw [h.ahead, ahead, List.length_append]
  omega

/-- The level of a nested rule is given back. -/
theorem Past.surface {s t : State} {rest : List Token}
    (h : Past { s with depth := s.depth + 1 } 0 rest t) :
    Past s 0 rest { t with depth := t.depth - 1 } := by
  refine ⟨h.ahead, ?_, h.source, h.final, h.skipped⟩
  change t.depth - 1 = s.depth + 0
  rw [h.depth]
  rfl

variable {α β : Type}

/-- With enough levels left the rule reads the words, keeps `taken` levels and gives a good result,
provided that what stands behind the words allows it; otherwise it fails. -/
def Climbing (m : ParseM α) (words : List Word) (cost taken : Nat) (next : Kind → Prop)
    (good : α → Prop) : Prop :=
  ∀ (s : State) (tokens rest : List Token), Spells s.source words tokens →
    s.ahead = tokens ++ rest →
    next (rest.headD s.final).kind → s.depth ≤ maxDepth →
    (s.depth + cost ≤ maxDepth ∧ ∃ a t, m.run s = (.ok a, t) ∧ Past s taken rest t ∧ good a) ∨
      (maxDepth < s.depth + cost ∧ ∃ e t, m.run s = (.error e, t))

/-- A rule that gives back the levels it takes. -/
abbrev Reads (m : ParseM α) (words : List Word) (cost : Nat) (next : Kind → Prop)
    (good : α → Prop) : Prop :=
  Climbing m words cost 0 next good

/-- The first of some words, or what stands behind them if there are none, is allowed. -/
def Leads (next : Kind → Prop) (allowed : Kind → Prop) : List Word → Prop
  | [] => ∀ kind, next kind → allowed kind
  | .token kind _ :: _ => allowed kind
  | .value _ :: _ => ∀ kind, allowed kind

theorem Leads.head {next allowed : Kind → Prop} {words : List Word} {source : List Char}
    {tokens rest : List Token} {final : Token} (h : Leads next allowed words)
    (spells : Spells source words tokens) (behind : next (rest.headD final).kind) :
    allowed ((tokens ++ rest).headD final).kind := by
  cases spells with
  | nil => exact h _ behind
  | token _ => exact h
  | value _ _ => exact h _

theorem leads_true {next : Kind → Prop} (words : List Word) : Leads next (fun _ => True) words := by
  cases words with
  | nil => exact fun _ _ => trivial
  | cons w words =>
      cases w with
      | token kind text => exact trivial
      | value text => exact fun _ => trivial

namespace Climbing

variable {m : ParseM α} {f : α → ParseM β} {words more : List Word} {c d i j : Nat}
variable {next next' : Kind → Prop} {good : α → Prop} {good' : β → Prop}

theorem bind (hm : Climbing m words c i next good)
    (hf : ∀ a, good a → Climbing (f a) more d j next' good')
    (leads : Leads next' next more) (le : i ≤ c) :
    Climbing (m >>= f) (words ++ more) (max c (i + d)) (i + j) next' good' := by
  intro s tokens rest spells ahead behind depth
  obtain ⟨first, second, rfl, here, there⟩ := spells.of_append
  rw [List.append_assoc] at ahead
  rcases hm s first (second ++ rest) here ahead (leads.head there behind) depth with
    ⟨fits, a, t, run, past, ha⟩ | ⟨exceeds, e, t, run⟩
  · rw [run_bind_ok run]
    have later := hf a ha t second rest (past.source ▸ there) past.ahead (past.final ▸ behind)
      (by rw [past.depth]; omega)
    rw [past.depth] at later
    rcases later with ⟨fits', b, u, run', past', hb⟩ | ⟨exceeds, e, u, run'⟩
    · exact .inl ⟨by omega, b, u, run', past.trans past', hb⟩
    · exact .inr ⟨by omega, e, u, run'⟩
  · exact .inr ⟨by omega, e, t, run_bind_error run⟩

/-- A rule that gives back its levels, then another one. -/
theorem andThen (hm : Reads m words c next good)
    (hf : ∀ a, good a → Climbing (f a) more d j next' good') (leads : Leads next' next more) :
    Climbing (m >>= f) (words ++ more) (max c d) j next' good' := by
  have both := hm.bind hf leads (Nat.zero_le c)
  rw [Nat.zero_add, Nat.zero_add] at both
  exact both

/-- A rule, then another one that only looks ahead. -/
theorem andPeek (hm : Reads m words c next good) (hf : ∀ a, good a → Reads (f a) [] 0 next' good')
    (imp : ∀ kind, next' kind → next kind) : Reads (m >>= f) words c next' good' := by
  have both := hm.andThen hf imp
  rw [Nat.max_zero, List.append_nil] at both
  exact both

/-- A rule that takes no level, then another one. -/
theorem free (hm : Reads m words 0 next good)
    (hf : ∀ a, good a → Climbing (f a) more d j next' good')
    (leads : Leads next' next more) : Climbing (m >>= f) (words ++ more) d j next' good' := by
  have both := hm.andThen hf leads
  rw [Nat.zero_max] at both
  exact both

theorem skip (hm : Reads m [] 0 next good) (hf : ∀ a, good a → Climbing (f a) more d j next' good')
    (leads : Leads next' next more) : Climbing (m >>= f) more d j next' good' := hm.free hf leads

theorem word {w : Word} (hm : Reads m [w] 0 (fun _ => True) good)
    (hf : ∀ a, good a → Climbing (f a) more d j next' good') :
    Climbing (m >>= f) (w :: more) d j next' good' := hm.free hf (leads_true more)

/-- A rule whose result is only wrapped. -/
theorem wrap (hm : Climbing m words c i next good) {P : β → Prop} {g : α → β}
    (hg : ∀ a, good a → P (g a)) : Climbing (m >>= fun a => pure (g a)) words c i next P := by
  intro s tokens rest spells ahead behind depth
  rcases hm s tokens rest spells ahead behind depth with
    ⟨fits, a, t, run, past, ha⟩ | ⟨exceeds, e, t, run⟩
  · exact .inl ⟨fits, g a, t, run_bind_ok run, past, hg a ha⟩
  · exact .inr ⟨exceeds, e, t, run_bind_error run⟩

theorem weaken (h : Climbing m words c i next good) {good'' : α → Prop}
    (imp : ∀ a, good a → good'' a)
    (le : ∀ kind, next' kind → next kind) : Climbing m words c i next' good'' := by
  intro s tokens rest spells ahead behind depth
  rcases h s tokens rest spells ahead (le _ behind) depth with ⟨fits, a, t, run, past, ha⟩ | failed
  · exact .inl ⟨fits, a, t, run, past, imp a ha⟩
  · exact .inr failed

theorem congr (h : Climbing m words c i next good) {words' : List Word} {c' i' : Nat}
    (hw : words' = words) (hc : c' = c) (hi : i' = i) : Climbing m words' c' i' next good := by
  rw [hw, hc, hi]
  exact h

theorem nested (h : Reads m words c next good) :
    Reads (ParseM.nested m) words (c + 1) next good := by
  intro s tokens rest spells ahead behind depth
  rw [run_nested]
  split
  · exact .inr ⟨by omega, _, _, rfl⟩
  · next below =>
      have entered : s.depth + 1 ≤ maxDepth := by omega
      rcases h { s with depth := s.depth + 1 } tokens rest spells ahead behind entered with
        ⟨fits, a, t, run, past, ha⟩ | ⟨exceeds, e, t, run⟩
      · have within : s.depth + 1 + c ≤ maxDepth := fits
        rw [run]
        exact .inl ⟨by omega, a, _, rfl, past.surface, ha⟩
      · have beyond : maxDepth < s.depth + 1 + c := exceeds
        rw [run]
        exact .inr ⟨by omega, e, _, rfl⟩

theorem chain (h : Climbing m words c i next good) : Reads (ParseM.chain m) words c next good := by
  intro s tokens rest spells ahead behind depth
  rw [run_chain]
  rcases h s tokens rest spells ahead behind depth with
    ⟨fits, a, t, run, past, ha⟩ | ⟨exceeds, e, t, run⟩
  · rw [run]
    exact .inl ⟨fits, a, _, rfl, ⟨past.ahead, rfl, past.source, past.final, past.skipped⟩, ha⟩
  · rw [run]
    exact .inr ⟨exceeds, e, _, rfl⟩

end Climbing

theorem reads_pure {a : α} {next : Kind → Prop} {good : α → Prop} (h : good a) :
    Reads (pure a) [] 0 next good := by
  intro s tokens rest spells ahead behind depth
  cases spells
  exact .inl ⟨depth, a, s, rfl, ⟨ahead, rfl, rfl, rfl, rfl⟩, h⟩

theorem climbing_link : Climbing link [] 1 1 (fun _ => True) fun _ => True := by
  intro s tokens rest spells ahead behind depth
  cases spells
  rw [run_link]
  split
  · exact .inr ⟨by omega, _, _, rfl⟩
  · exact .inl ⟨by omega, _, _, rfl, ⟨ahead, rfl, rfl, rfl, rfl⟩, trivial⟩

/-- One more link takes a level that stays taken. -/
theorem Climbing.link {f : PUnit → ParseM β} {words : List Word} {c i : Nat} {next : Kind → Prop}
    {good : β → Prop} (h : ∀ a, Climbing (f a) words c i next good) :
    Climbing (ParseM.link >>= f) words (1 + c) (1 + i) next good := by
  have leads : Leads next (fun _ => True) words := leads_true words
  have both := climbing_link.bind (fun a _ => h a) leads (Nat.le_refl 1)
  have cost : max 1 (1 + c) = 1 + c := by omega
  rw [cost] at both
  exact both

theorem past_advance {s : State} {t : Token} {rest : List Token} (ahead : s.ahead = t :: rest) :
    Past s 0 rest s.advance := by
  rw [State.advance_of_cons ahead]
  exact ⟨rfl, rfl, rfl, rfl, rfl⟩

theorem peek_of_cons {s : State} {t : Token} {rest : List Token} (ahead : s.ahead = t :: rest) :
    s.peek = t := by
  rw [State.peek, ahead]
  rfl

theorem peek_eq {s : State} {rest : List Token} (ahead : s.ahead = rest) :
    s.peek = rest.headD s.final := by
  rw [State.peek, ahead]

theorem reads_advance (kind : Kind) (text : String) :
    Reads advance [.token kind text] 0 (fun _ => True) fun t => t.kind = kind ∧ t.text = text := by
  intro s tokens rest spells ahead behind depth
  obtain ⟨t, none, rfl, hk, ht, spells⟩ := spells.of_token
  cases spells
  refine .inl ⟨depth, s.peek, s.advance, run_advance s, past_advance ahead, ?_⟩
  rw [peek_of_cons ahead]
  exact ⟨hk, ht⟩

theorem reads_expect (kind : Kind) (text : String) (what : Expected) :
    Reads (expect kind what) [.token kind text] 0 (fun _ => True) fun t => t.text = text := by
  intro s tokens rest spells ahead behind depth
  obtain ⟨t, none, rfl, hk, ht, spells⟩ := spells.of_token
  cases spells
  have peek : s.peek = t := peek_of_cons ahead
  refine .inl ⟨depth, s.peek, s.advance, ?_, past_advance ahead, peek ▸ ht⟩
  rw [run_expect, if_pos (by simp [State.check, peek, hk])]

theorem reads_eat (kind : Kind) (text : String) :
    Reads (eat kind) [.token kind text] 0 (fun _ => True) (· = true) := by
  intro s tokens rest spells ahead behind depth
  obtain ⟨t, none, rfl, hk, ht, spells⟩ := spells.of_token
  cases spells
  have peek : s.peek = t := peek_of_cons ahead
  refine .inl ⟨depth, true, s.advance, ?_, past_advance ahead, rfl⟩
  rw [run_eat, if_pos (by simp [State.check, peek, hk])]

theorem reads_eat_other (kind : Kind) : Reads (eat kind) [] 0 (· ≠ kind) (· = false) := by
  intro s tokens rest spells ahead behind depth
  cases spells
  refine .inl ⟨depth, false, s, ?_, ⟨ahead, rfl, rfl, rfl, rfl⟩, rfl⟩
  rw [run_eat, if_neg (by simpa [State.check, peek_eq ahead] using behind)]

theorem reads_check (kind : Kind) : Reads (check kind) [] 0 (· = kind) (· = true) := by
  intro s tokens rest spells ahead behind depth
  cases spells
  refine .inl ⟨depth, true, s, ?_, ⟨ahead, rfl, rfl, rfl, rfl⟩, rfl⟩
  have peek : s.peek = rest.headD s.final := peek_eq ahead
  rw [run_check, State.check, peek, decide_eq_true behind]

theorem reads_check_other (kind : Kind) : Reads (check kind) [] 0 (· ≠ kind) (· = false) := by
  intro s tokens rest spells ahead behind depth
  cases spells
  refine .inl ⟨depth, false, s, ?_, ⟨ahead, rfl, rfl, rfl, rfl⟩, rfl⟩
  have peek : s.peek = rest.headD s.final := peek_eq ahead
  rw [run_check, State.check, peek, decide_eq_false behind]

/-- A rule that looks at the state first, where a token comes next. -/
theorem climbing_get {f : State → ParseM β} {kind : Kind} {text : String} {words : List Word}
    {c i : Nat}
    {next : Kind → Prop} {good : β → Prop} (h : ∀ s, s.peek.kind = kind → s.peek.text = text →
      Climbing (f s) (.token kind text :: words) c i next good) :
    Climbing (get >>= f) (.token kind text :: words) c i next good := by
  intro s tokens rest spells ahead behind depth
  obtain ⟨t, others, rfl, hk, ht, _⟩ := spells.of_token
  have peek : s.peek = t := peek_of_cons ahead
  exact h s (by rw [peek, hk]) (by rw [peek, ht]) s _ rest spells ahead behind depth

/-- A rule that uses the state only for spans. -/
theorem climbing_get_any {f : State → ParseM β} {words : List Word} {c i : Nat} {next : Kind → Prop}
    {good : β → Prop} (h : ∀ s, Climbing (f s) words c i next good) :
    Climbing (get >>= f) words c i next good :=
  fun s => h s s

theorem reads_skipNewlines : Reads skipNewlines [] 0 (· ≠ .newline) fun _ => True := by
  intro s tokens rest spells ahead behind depth
  cases spells
  refine .inl ⟨depth, ⟨⟩, s, ?_, ⟨ahead, rfl, rfl, rfl, rfl⟩, trivial⟩
  have ahead : s.ahead = rest := ahead
  rw [run_skipNewlines, State.skipNewlines, ahead]
  cases rest with
  | nil => rfl
  | cons t rest =>
      have other : t.kind ≠ .newline := behind
      rw [State.skipNewlines.go, if_neg other]

namespace Climbing

variable {step : α → ParseM (α × Bool)} {a : α} {words more : List Word} {c d i j : Nat}
variable {next next' : Kind → Prop} {good' : α → Prop}

theorem repeating_stop (good : α → Prop)
    (h : Climbing (step a) words c i next fun result => result.2 = false ∧ good result.1) :
    Climbing (repeating step a) words c i next good := by
  intro s tokens rest spells ahead behind depth
  rcases h s tokens rest spells ahead behind depth with
    ⟨fits, ⟨b, more⟩, t, run, past, hb⟩ | ⟨exceeds, e, t, run⟩
  · obtain ⟨rfl, hb⟩ := hb
    exact .inl ⟨fits, b, t, run_repeating_stopped run, past, hb⟩
  · exact .inr ⟨exceeds, e, t, run_repeating_failed run⟩

/-- A step that asks for more, then the rest of the loop. -/
theorem repeating_more (good : α → Prop)
    (h : Climbing (step a) words c i next fun result => result.2 = true ∧ good result.1)
    (nonempty : ∀ source tokens, Spells source words tokens → tokens ≠ [])
    (later : ∀ b, good b → Climbing (repeating step b) more d j next' good')
    (leads : Leads next' next more) (le : i ≤ c) :
    Climbing (repeating step a) (words ++ more) (max c (i + d)) (i + j) next' good' := by
  intro s tokens rest spells ahead behind depth
  obtain ⟨first, second, rfl, here, there⟩ := spells.of_append
  rw [List.append_assoc] at ahead
  rcases h s first (second ++ rest) here ahead (leads.head there behind) depth with
    ⟨fits, ⟨b, more⟩, t, run, past, hb⟩ | ⟨exceeds, e, t, run⟩
  · obtain ⟨rfl, hb⟩ := hb
    rw [run_repeating_again run (past.shorter ahead (nonempty _ _ here))]
    have rest' := later b hb t second rest (past.source ▸ there) past.ahead (past.final ▸ behind)
      (by rw [past.depth]; omega)
    rw [past.depth] at rest'
    rcases rest' with ⟨fits', b, u, run', past', hb⟩ | ⟨exceeds, e, u, run'⟩
    · exact .inl ⟨by omega, b, u, run', past.trans past', hb⟩
    · exact .inr ⟨by omega, e, u, run'⟩
  · exact .inr ⟨by omega, e, t, run_repeating_failed run⟩

end Climbing

/-- Words that start with a token of some kind. -/
def Heads (P : Kind → Prop) (words : List Word) : Prop :=
  ∃ kind text more, words = .token kind text :: more ∧ P kind

theorem Heads.leads {P next allowed : Kind → Prop} {words : List Word} (h : Heads P words)
    (imp : ∀ kind, P kind → allowed kind) (more : List Word) :
    Leads next allowed (words ++ more) := by
  obtain ⟨kind, text, rest, rfl, holds⟩ := h
  exact imp kind holds

theorem Heads.imp {P Q : Kind → Prop} {words : List Word} (h : Heads P words)
    (imp : ∀ kind, P kind → Q kind) : Heads Q words := by
  obtain ⟨kind, text, more, rfl, holds⟩ := h
  exact ⟨kind, text, more, rfl, imp kind holds⟩

theorem Heads.append {P : Kind → Prop} {words : List Word} (h : Heads P words) (more : List Word) :
    Heads P (words ++ more) := by
  obtain ⟨kind, text, rest, rfl, holds⟩ := h
  exact ⟨kind, text, rest ++ more, rfl, holds⟩

theorem Heads.separated {P : Kind → Prop} {item : List Word} (h : Heads P item)
    (items : List (List Word)) : Heads P (Word.separated (item :: items)) := by
  cases items with
  | nil => exact h
  | cons next items => exact h.append _

theorem Heads.ne_nil {P : Kind → Prop} {words : List Word} (h : Heads P words) (source : List Char)
    (tokens : List Token) (spells : Spells source words tokens) : tokens ≠ [] := by
  obtain ⟨kind, text, rest, rfl, _⟩ := h
  obtain ⟨t, others, rfl, _⟩ := spells.of_token
  exact List.cons_ne_nil _ _

/-- A rule whose result is wrapped with a span. -/
theorem Climbing.wrapSpan {m : ParseM α} {words : List Word} {c i : Nat} {next : Kind → Prop}
    {good : α → Prop} {P : β → Prop} (hm : Climbing m words c i next good) {g : α → State → β}
    (hg : ∀ a s, good a → P (g a s)) :
    Climbing (m >>= fun a => get >>= fun s => pure (g a s)) words c i next P := by
  intro s tokens rest spells ahead behind depth
  rcases hm s tokens rest spells ahead behind depth with
    ⟨fits, a, t, run, past, ha⟩ | ⟨exceeds, e, t, run⟩
  · exact .inl ⟨fits, g a t, t, run_bind_ok run, past, hg a t ha⟩
  · exact .inr ⟨exceeds, e, t, run_bind_error run⟩

/-- A token behind an item of a list. -/
def EndsItem (kind : Kind) : Prop := kind = .comma ∨ kind = .rParen

theorem EndsItem.elim {P : Kind → Prop} (comma : P .comma) (rParen : P .rParen) :
    ∀ kind, EndsItem kind → P kind := by
  rintro kind (rfl | rfl)
  · exact comma
  · exact rParen

section Items

variable {γ : Type} {item : ParseM α} {words : β → List Word} {cost : β → Nat} {view : α → γ}
  {seen : β → γ}

/-- An item and the comma behind it. -/
theorem itemLink_more {x : β}
    (h : Reads item (words x) (cost x) EndsItem fun a => view a = seen x)
    (items : List α) :
    Reads (itemLink item items) (words x ++ [Word.comma]) (cost x) (· ≠ .newline)
      fun result => result.2 = true ∧ ∃ a, result.1 = a :: items ∧ view a = seen x := by
  have rest : ∀ a, view a = seen x → Reads (skipNewlines >>= fun _ => eat .comma >>= fun more =>
      if more then skipNewlines >>= fun _ => pure (a :: items, true) else pure (a :: items, false))
      [.comma] 0 (· ≠ .newline)
      fun result => result.2 = true ∧ ∃ a, result.1 = a :: items ∧ view a = seen x := by
    intro a ha
    have comma : Kind.comma ≠ .newline := by decide
    refine reads_skipNewlines.skip (fun _ _ => ?_) comma
    refine (reads_eat .comma ",").word fun more eaten => ?_
    rw [eaten]
    exact reads_skipNewlines.skip (fun _ _ => reads_pure ⟨rfl, a, rfl, ha⟩) fun _ => id
  have both := h.andThen rest (.inl rfl)
  rw [Nat.max_zero] at both
  exact both

/-- The last item. -/
theorem itemLink_last {x : β}
    (h : Reads item (words x) (cost x) EndsItem fun a => view a = seen x)
    (items : List α) :
    Reads (itemLink item items) (words x) (cost x) (· = .rParen)
      fun result => result.2 = false ∧ ∃ a, result.1 = a :: items ∧ view a = seen x := by
  have rest : ∀ a, view a = seen x → Reads (skipNewlines >>= fun _ => eat .comma >>= fun more =>
      if more then skipNewlines >>= fun _ => pure (a :: items, true) else pure (a :: items, false))
      [] 0 (· = .rParen) fun result => result.2 = false ∧ ∃ a, result.1 = a :: items ∧
          view a = seen x := by
    intro a ha
    refine reads_skipNewlines.skip (fun _ _ => ?_) (by rintro kind rfl; decide)
    refine (reads_eat_other .comma).skip (fun more other => ?_) (by rintro kind rfl; decide)
    rw [other]
    exact reads_pure ⟨rfl, a, rfl, ha⟩
  have both := h.andThen rest (by rintro kind rfl; exact .inr rfl)
  rw [Nat.max_zero, List.append_nil] at both
  exact both

theorem items_reads {x : β} {xs : List β}
    (h : ∀ y ∈ x :: xs, Reads item (words y) (cost y) EndsItem fun a => view a = seen y)
    (heads : ∀ y ∈ x :: xs, Heads (fun k => k ≠ .newline ∧ k ≠ .rParen) (words y))
    (items : List α) :
    Reads (repeating (itemLink item) items) (Word.separated ((x :: xs).map words))
      (((x :: xs).map cost).foldr max 0) (· = .rParen)
      fun result => result.reverse.map view = items.reverse.map view ++ (x :: xs).map seen := by
  induction xs generalizing x items with
  | nil =>
      have one := Climbing.repeating_stop (fun result => ∃ a, result = a :: items ∧ view a = seen x)
        (itemLink_last (h x List.mem_cons_self) items)
      refine (one.weaken ?_ fun _ => id).congr rfl (Nat.max_zero _) rfl
      rintro result ⟨a, rfl, ha⟩
      simp [ha]
  | cons y ys ih =>
      have later : ∀ b : List α, (∃ a, b = a :: items ∧ view a = seen x) →
          Reads (repeating (itemLink item) b) (Word.separated ((y :: ys).map words))
            (((y :: ys).map cost).foldr max 0) (· = .rParen) fun result =>
            result.reverse.map view = items.reverse.map view ++ (x :: y :: ys).map seen := by
        rintro b ⟨a, rfl, ha⟩
        refine (ih (fun z member => h z (List.mem_cons_of_mem x member))
          (fun z member => heads z (List.mem_cons_of_mem x member)) (a :: items)).weaken ?_ fun _ =>
          id
        intro result all
        rw [all]
        simp [ha]
      have first := itemLink_more (h x List.mem_cons_self) items
      have next := heads y (List.mem_cons_of_mem x List.mem_cons_self)
      have leads : Leads (· = .rParen) (· ≠ .newline) (Word.separated ((y :: ys).map words)) := by
        simpa using (next.separated (ys.map words)).leads (fun _ other => other.1) []
      have here := heads x List.mem_cons_self
      have nonempty : ∀ source tokens, Spells source (words x ++ [.comma]) tokens →
          tokens ≠ [] := by
        intro source tokens spells
        obtain ⟨front, back, rfl, spelled, _⟩ := spells.of_append
        exact List.append_ne_nil_of_left_ne_nil (here.ne_nil source front spelled) back
      have both := Climbing.repeating_more _ first nonempty later leads (Nat.zero_le _)
      refine both.congr ?_ ?_ rfl
      · simp [Word.separated]
      · rw [Nat.zero_add]
        rfl

/-- Items with commas between them and the parenthesis that closes them. -/
theorem inParens_reads (view : α → γ) (seen : β → γ) (xs : List β)
    (h : ∀ y ∈ xs, Reads item (words y) (cost y) EndsItem fun a => view a = seen y)
    (heads : ∀ y ∈ xs, Heads (fun k => k ≠ .newline ∧ k ≠ .rParen) (words y)) (closing : Expected) :
    Reads (inParens item closing) (Word.separated (xs.map words) ++ [Word.rParen])
    ((xs.map cost).foldr max 0) (fun _ => True) fun result => result.map view = xs.map seen := by
  cases xs with
  | nil =>
      have rParen : Kind.rParen ≠ .newline := by decide
      refine reads_skipNewlines.skip (fun _ _ => ?_) rParen
      refine (reads_check .rParen).skip (fun closed here => ?_) rfl
      rw [here]
      have none : Reads (pure []) [] 0 (fun _ => True) fun items : List α => items = [] :=
        reads_pure rfl
      refine none.skip (fun items empty => ?_) trivial
      refine (reads_expect .rParen ")" closing).wrap fun _ _ => ?_
      rw [empty]
      rfl
  | cons x xs =>
      have first := (heads x List.mem_cons_self).separated (xs.map words)
      refine reads_skipNewlines.skip (fun _ _ => ?_) (first.leads (fun _ other => other.1) _)
      refine (reads_check_other .rParen).skip
        (fun closed other => ?_) (first.leads (fun _ other => other.2) _)
      rw [other]
      have close : ∀ items : List α, items.reverse.map view = (x :: xs).map seen →
          Reads (expect .rParen closing >>= fun _ => pure items.reverse) [.rParen] 0 (fun _ => True)
            fun result => result.map view = (x :: xs).map seen :=
        fun items all => (reads_expect .rParen ")" closing).wrap fun _ _ => all
      have both := (items_reads h heads []).andThen close rfl
      rw [Nat.max_zero] at both
      exact both

end Items

end ParseM

end ScriptLens
