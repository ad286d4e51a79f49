import ScriptLens.Proofs.Parser.Progress
import ScriptLens.Proofs.Spans.Pieces

/-!
Rules lay out what they consume. From the state in which a rule starts, the tokens consumed so far
form sound pieces; a rule that succeeds says what these pieces are, and one that fails leaves the
pieces read so far. Braces are counted along: of those that rules looked at, every opening one is
closed or stands for a block dropped as unclosed.
-/

namespace ScriptLens

/-- Kinds of tokens that no count needs: neither braces, nor directives, nor end marks. -/
def Kind.isPlain : Kind → Bool
  | lBrace | rBrace | directive | eof => false
  | _ => true

def ParseError.unclosed (e : ParseError) : Bool := e.cause = .expected .closeBlock

namespace Piece

/-- Among the tokens that rules looked at, `k` opening braces are neither closed nor noted as
unclosed. -/
def Braced (k : Nat) (ps : List Piece) : Prop :=
  (live ps).countP (·.kind = .rBrace) + (entries ps).countP (·.error.unclosed) + k =
    (live ps).countP (·.kind = .lBrace)

theorem braced_nil : Braced 0 [] := rfl

theorem Braced.append {j k : Nat} {ps qs : List Piece} (first : Braced j ps)
    (second : Braced k qs) : Braced (j + k) (ps ++ qs) := by
  unfold Braced at *
  simp only [live_append, entries_append, List.countP_append]
  omega

theorem braced_tokens {ts : List Token} (plain : ∀ t ∈ ts, t.kind.isPlain = true) :
    Braced 0 (ts.map token) := by
  have none (kind : Kind) (other : kind.isPlain = false) : ts.countP (·.kind = kind) = 0 := by
    rw [List.countP_eq_zero]
    intro t member same
    have here := plain t member
    rw [of_decide_eq_true same, other] at here
    cases here
  unfold Braced
  rw [live_tokens, entries_tokens, none .lBrace rfl, none .rBrace rfl]
  rfl

theorem Braced.push {k : Nat} {ps : List Piece} {t : Token} (h : Braced k ps)
    (plain : t.kind.isPlain = true) : Braced k (ps ++ [token t]) := by
  have none : Braced 0 ([t].map token) := braced_tokens (by simpa using plain)
  exact h.append none

theorem braced_opening {t : Token} (kind : t.kind = .lBrace) : Braced 1 [token t] := by
  simp [Braced, kind]

theorem Braced.closing {k : Nat} {ps : List Piece} {t : Token} (h : Braced (k + 1) ps)
    (kind : t.kind = .rBrace) : Braced k (ps ++ [token t]) := by
  have one : [t].countP (·.kind = .rBrace) = 1 := by simp [kind]
  have none : [t].countP (·.kind = .lBrace) = 0 := by simp [kind]
  unfold Braced at *
  rw [live_append, live_token, live_nil, entries_append, entries_token, entries_nil,
    List.append_nil, List.countP_append, List.countP_append, one, none]
  omega

theorem Braced.wrap {k : Nat} {ps qs rs : List Piece} {span : Span}
    (h : Braced k (ps ++ (qs ++ rs))) : Braced k (ps ++ node span qs :: rs) := by
  unfold Braced at *
  simpa using h

/-- A dropped statement takes the brace it left open along. -/
theorem Braced.drop {e : ParseError} {ps : List Piece} {beyond : List Token} {span : Span}
    (h : Braced e.unclosed.toNat ps) : Braced 0 [dropped ps beyond ⟨span, e⟩] := by
  unfold Braced at *
  simp only [live_dropped, live_nil, entries_dropped, entries_nil, List.append_nil,
    List.countP_append, List.countP_singleton]
  cases closing : e.unclosed with
  | true =>
      rw [closing, Bool.toNat_true] at h
      simp only [if_true]
      omega
  | false =>
      rw [closing, Bool.toNat_false] at h
      simp only [if_neg Bool.false_ne_true]
      omega

theorem Braced.node {k : Nat} {ps : List Piece} {span : Span} (h : Braced k ps) :
    Braced k [Piece.node span ps] := by
  unfold Braced at *
  simpa using h

end Piece

namespace Parser

open Piece ParseM

variable {α β : Type} {s t u : State} {ps qs rs : List Piece}

/-- The tokens ahead come in order, closed by an end mark. -/
structure State.Orderly (s : State) : Prop where
  order : InOrder s.ahead
  closed : s.Closed
  solid : ∀ t ∈ s.ahead, t.kind ≠ .eof

/-- Between two states the tokens were laid out as given pieces. -/
structure Laid (s : State) (ps : List Piece) (t : State) : Prop where
  ahead : s.ahead = leaves ps ++ t.ahead
  final : t.final = s.final
  last : t.last = (leaves ps).getLastD s.last
  skipped : t.skipped = (entries ps).reverse ++ s.skipped
  sound : Sound (t.ahead ++ [t.final]) ps

namespace Laid

theorem refl : Laid s [] s := ⟨rfl, rfl, rfl, rfl, .nil⟩

theorem trans (first : Laid s ps t) (second : Laid t qs u) : Laid s (ps ++ qs) u := by
  refine ⟨?_, second.final.trans first.final, ?_, ?_, ?_⟩
  · rw [first.ahead, second.ahead, leaves_append, List.append_assoc]
  · rw [second.last, first.last, leaves_append]
    simp only [List.getLastD_eq_getLast?, List.getLast?_append]
    cases (leaves qs).getLast? <;> rfl
  · rw [second.skipped, first.skipped, entries_append, List.reverse_append, List.append_assoc]
  · apply sound_append.mpr
    constructor
    · have sound := first.sound
      rw [second.ahead, List.append_assoc, ← second.final] at sound
      exact sound
    · exact second.sound

theorem orderly (h : Laid s ps t) (orderly : s.Orderly) : t.Orderly := by
  have order := orderly.order
  have solid := orderly.solid
  rw [h.ahead] at order solid
  refine ⟨order.right, ?_, fun u member => solid u (List.mem_append_right _ member)⟩
  unfold State.Closed
  rw [h.final]
  exact orderly.closed

theorem order (h : Laid s ps t) (orderly : s.Orderly) : InOrder (leaves ps) := by
  have order := orderly.order
  rw [h.ahead] at order
  exact order.left

theorem getLast (h : Laid s ps t) (some : leaves ps ≠ []) :
    (leaves ps).getLast? = .some t.last := by
  rw [h.last, List.getLastD_eq_getLast?, List.getLast?_eq_some_getLast some]
  rfl

theorem wrap {span : Span} (h : Laid s (ps ++ (qs ++ rs)) t) (covers : span.Over (leaves qs)) :
    Laid s (ps ++ Piece.node span qs :: rs) t := by
  refine ⟨?_, h.final, ?_, ?_, h.sound.wrap covers⟩
  · rw [h.ahead]
    simp
  · rw [h.last]
    simp
  · rw [h.skipped]
    simp

theorem node {span : Span} (h : Laid s ps t) (covers : span.Over (leaves ps)) :
    Laid s [.node span ps] t := by
  have whole : Laid s ([] ++ (ps ++ [])) t := by
    rw [List.append_nil]
    exact h
  exact whole.wrap covers

theorem tokens (ts : List Token) (ahead : s.ahead = ts ++ t.ahead) (final : t.final = s.final)
    (last : t.last = ts.getLastD s.last) (skipped : t.skipped = s.skipped)
    (kinds : ∀ t ∈ ts, t.kind ≠ .directive) : Laid s (ts.map token) t := by
  refine ⟨?_, final, ?_, ?_, sound_tokens kinds⟩
  · rw [leaves_tokens]
    exact ahead
  · rw [leaves_tokens]
    exact last
  · rw [entries_tokens]
    exact skipped

theorem consume (orderly : s.Orderly) (going : s.peek.kind ≠ .eof)
    (other : s.peek.kind ≠ .directive) : Laid s [.token s.peek] s.advance := by
  cases ahead : s.ahead with
  | nil => exact absurd ahead (State.ahead_ne_nil orderly.closed going)
  | cons first rest =>
      have here : s.peek = first := by
        rw [State.peek, ahead]
        rfl
      rw [here] at other ⊢
      rw [State.advance_of_cons ahead]
      exact tokens [first] ahead rfl rfl rfl (by simpa using other)

theorem advance (orderly : s.Orderly) (plain : s.peek.kind.isPlain = true) :
    Laid s [.token s.peek] s.advance := by
  apply consume orderly
  · intro kind
    rw [kind] at plain
    cases plain
  · intro kind
    rw [kind] at plain
    cases plain

theorem redepth (h : Laid s ps t) (depth : Nat) : Laid s ps { t with depth := depth } :=
  ⟨h.ahead, h.final, h.last, h.skipped, h.sound⟩

end Laid

/-- What is known of the pieces when a rule that was entered in a state is done: if it succeeds, a
property of its result; if it fails, that it failed at the current token, and that only a failure to
close a block leaves a brace open. -/
def Ends (s : State) (Q : α → List Piece → Prop) : Except ParseError α × State → Prop
  | (.ok a, t) => ∃ ps, Laid s ps t ∧ Q a ps
  | (.error e, t) => ∃ ps, Laid s ps t ∧ e.found = t.peek ∧ Braced e.unclosed.toNat ps

/-- The rule, run behind pieces with one property, ends with another. -/
def From (s : State) (P : List Piece → Prop) (m : ParseM α) (Q : α → List Piece → Prop) : Prop :=
  ∀ ps t, Laid s ps t → P ps → Ends s Q (m.run t)

variable {P P' : List Piece → Prop} {Q Q' : α → List Piece → Prop} {R : β → List Piece → Prop}
  {m : ParseM α}

theorem Ends.weaken {outcome : Except ParseError α × State} (h : Ends s Q outcome)
    (less : ∀ a ps, Q a ps → Q' a ps) : Ends s Q' outcome := by
  obtain ⟨result, t⟩ := outcome
  cases result with
  | error e => exact h
  | ok a =>
      obtain ⟨ps, laid, holds⟩ := h
      exact ⟨ps, laid, less a ps holds⟩

theorem Ends.redepth {result : Except ParseError α} (h : Ends s Q (result, t)) (depth : Nat) :
    Ends s Q (result, { t with depth := depth }) := by
  cases result with
  | error e =>
      obtain ⟨ps, laid, found, even⟩ := h
      exact ⟨ps, laid.redepth depth, found, even⟩
  | ok a =>
      obtain ⟨ps, laid, holds⟩ := h
      exact ⟨ps, laid.redepth depth, holds⟩

/-- Only the place of the state in which a rule is entered matters. -/
theorem Ends.enter {outcome : Except ParseError α × State} (h : Ends t Q outcome)
    (ahead : t.ahead = s.ahead) (final : t.final = s.final) (last : t.last = s.last)
    (skipped : t.skipped = s.skipped) : Ends s Q outcome := by
  have same {ps : List Piece} {u : State} (laid : Laid t ps u) : Laid s ps u :=
    ⟨ahead ▸ laid.ahead, final ▸ laid.final, last ▸ laid.last, skipped ▸ laid.skipped, laid.sound⟩
  obtain ⟨result, u⟩ := outcome
  cases result with
  | error e =>
      obtain ⟨ps, laid, found, even⟩ := h
      exact ⟨ps, same laid, found, even⟩
  | ok a =>
      obtain ⟨ps, laid, holds⟩ := h
      exact ⟨ps, same laid, holds⟩

/-- Pieces laid before a rule was entered come first. -/
theorem Ends.behind {outcome : Except ParseError α × State} (h : Ends t Q outcome)
    (laid : Laid s ps t)
    (even : Braced 0 ps) : Ends s (fun a qs => ∃ rs, Q a rs ∧ qs = ps ++ rs) outcome := by
  obtain ⟨result, u⟩ := outcome
  cases result with
  | error e =>
      obtain ⟨rs, laid', found, braced⟩ := h
      have total := even.append braced
      rw [Nat.zero_add] at total
      exact ⟨ps ++ rs, laid.trans laid', found, total⟩
  | ok a =>
      obtain ⟨rs, laid', holds⟩ := h
      exact ⟨ps ++ rs, laid.trans laid', rs, holds, rfl⟩

theorem Ends.bind {f : α → ParseM β} (hm : Ends s Q (m.run t)) (hf : ∀ a, From s (Q a) (f a) R) :
    Ends s R ((m >>= f).run t) := by
  rw [run_bind]
  generalize m.run t = outcome at hm
  obtain ⟨result, u⟩ := outcome
  cases result with
  | error e => exact hm
  | ok a =>
      obtain ⟨qs, laid', holds'⟩ := hm
      exact hf a qs u laid' holds'

/-- Pieces with a property, and one token behind them. -/
def Then (P : List Piece → Prop) (t : Token) (ps : List Piece) : Prop :=
  ∃ qs, P qs ∧ ps = qs ++ [token t]

theorem Then.even {t : Token} (even : ∀ ps, P ps → Braced 0 ps) (plain : t.kind.isPlain = true) :
    ∀ ps, Then P t ps → Braced 0 ps := by
  rintro _ ⟨qs, holds, rfl⟩
  exact (even qs holds).push plain

namespace From

theorem ends {t : State} {ps : List Piece} {outcome : Except ParseError α × State}
    (h : From s P m Q)
    (run : m.run t = outcome) (laid : Laid s ps t) (holds : P ps) : Ends s Q outcome :=
  run ▸ h ps t laid holds

theorem bind {f : α → ParseM β} (hm : From s P m Q) (hf : ∀ a, From s (Q a) (f a) R) :
    From s P (m >>= f) R :=
  fun ps t laid holds => (hm ps t laid holds).bind hf

theorem check {kind : Kind} {f : Bool → ParseM β} (h : ∀ b, From s P (f b) R) :
    From s P (check kind >>= f) R :=
  fun ps t laid holds => h (t.check kind) ps t laid holds

theorem weaken (h : From s P m Q) (more : ∀ ps, P' ps → P ps) (less : ∀ a ps, Q a ps → Q' a ps) :
    From s P' m Q' :=
  fun ps t laid holds => (h ps t laid (more ps holds)).weaken less

theorem pure {a : α} (h : ∀ ps, P ps → Q a ps) : From s P (pure a) Q :=
  fun ps _ laid holds => ⟨ps, laid, h ps holds⟩

theorem refuse (cause : ParseCause) (other : cause ≠ .expected .closeBlock)
    (even : ∀ ps, P ps → Braced 0 ps) : From s P (refuse cause : ParseM α) Q := by
  intro ps t laid holds
  refine ⟨ps, laid, rfl, ?_⟩
  have settled : ParseError.unclosed ⟨cause, t.peek⟩ = false := decide_eq_false other
  rw [settled]
  exact even ps holds

theorem chain (h : From s P m Q) : From s P (chain m) Q :=
  fun ps t laid holds => (h ps t laid holds).redepth _

theorem link (even : ∀ ps, P ps → Braced 0 ps) : From s P link fun _ => P := by
  intro ps t laid holds
  rw [run_link]
  split
  · exact refuse .chainTooLong (by decide) even ps t laid holds
  · exact ⟨ps, laid.redepth _, holds⟩

/-- What every step of a loop keeps, the loop keeps. -/
theorem repeating {step : α → ParseM (α × Bool)}
    (h : ∀ a, From s (Q a) (step a) fun next => Q next.1) (a : α) :
    From s (Q a) (repeating step a) Q := by
  intro ps t laid holds
  have rounds := rounds_repeating step a t
  generalize (ParseM.repeating step a).run t = outcome at rounds ⊢
  induction rounds generalizing ps with
  | failed run => exact (h _).ends run laid holds
  | stopped run _ => exact (h _).ends run laid holds
  | again run _ _ ih =>
      obtain ⟨qs, laid', holds'⟩ := (h _).ends run laid holds
      exact ih qs laid' holds'

theorem advance (orderly : s.Orderly) (laid : Laid s ps t) (holds : P ps)
    (plain : t.peek.kind.isPlain = true) {f : Token → ParseM β}
    (h : From s (Then P t.peek) (f t.peek) R) : Ends s R ((advance >>= f).run t) := by
  have next := laid.trans (Laid.advance (laid.orderly orderly) plain)
  rw [run_bind_ok (run_advance t)]
  exact h _ _ next ⟨ps, holds, rfl⟩

theorem expect (orderly : s.Orderly) {kind : Kind} (plain : kind.isPlain = true) {what : Expected}
    (other : what ≠ .closeBlock) (even : ∀ ps, P ps → Braced 0 ps) :
    From s P (expect kind what) fun t ps => Then P t ps ∧ t.kind = kind := by
  intro ps t laid holds
  rw [run_expect]
  split
  · next here =>
      have same : t.peek.kind = kind := of_decide_eq_true here
      have next := laid.trans (Laid.advance (laid.orderly orderly) (same ▸ plain))
      exact ⟨_, next, ⟨ps, holds, rfl⟩, same⟩
  · apply refuse _ ?_ even ps t laid holds
    intro same
    exact other (ParseCause.expected.inj same)

theorem eat (orderly : s.Orderly) {kind : Kind} (plain : kind.isPlain = true) : From s P (eat kind)
    fun eaten ps => bif eaten then ∃ t, Then P t ps ∧ t.kind = kind else P ps := by
  intro ps t laid holds
  rw [run_eat]
  split
  · next here =>
      have same : t.peek.kind = kind := of_decide_eq_true here
      have next := laid.trans (Laid.advance (laid.orderly orderly) (same ▸ plain))
      exact ⟨_, next, t.peek, ⟨ps, holds, rfl⟩, same⟩
  · exact ⟨ps, laid, holds⟩

end From

theorem Laid.skipNewlines_go (s : State) : ∃ ts : List Token, (∀ t ∈ ts, t.kind = .newline) ∧
    Laid s (ts.map token) (State.skipNewlines.go s.ahead s) := by
  induction ahead : s.ahead generalizing s with
  | nil => exact ⟨[], by simp, .refl⟩
  | cons first rest ih =>
      rw [State.skipNewlines.go]
      split
      · next kind =>
          have next : s.advance.ahead = rest := by rw [State.advance_of_cons ahead]
          obtain ⟨ts, newlines, laid⟩ := ih s.advance next
          have here : Laid s ([first].map token) s.advance := by
            rw [State.advance_of_cons ahead]
            exact .tokens [first] ahead rfl rfl rfl (by simp [kind])
          refine ⟨first :: ts, ?_, here.trans laid⟩
          intro u member
          rcases List.mem_cons.mp member with rfl | later
          · exact kind
          · exact newlines u later
      · exact ⟨[], by simp, .refl⟩

theorem From.skipNewlines : From s P skipNewlines fun _ ps => ∃ (qs : List Piece) (ts : List Token),
    P qs ∧ ps = qs ++ ts.map token ∧ ∀ t ∈ ts, t.kind = .newline := by
  intro ps t laid holds
  obtain ⟨ts, newlines, more⟩ := Laid.skipNewlines_go t
  exact ⟨_, laid.trans more, ps, ts, holds, rfl, newlines⟩

/-- The rule, entered in any state, ends with a property of its result. -/
def Gives (m : ParseM α) (Q : α → List Piece → Prop) : Prop := ∀ s, s.Orderly → Ends s Q (m.run s)

theorem From.gives (h : ∀ s, s.Orderly → From s (· = []) m Q) : Gives m Q :=
  fun s orderly => h s orderly [] s .refl rfl

theorem Gives.behind (h : Gives m Q) (orderly : s.Orderly) (even : ∀ ps, P ps → Braced 0 ps) :
    From s P m fun a ps => ∃ qs rs, P qs ∧ Q a rs ∧ ps = qs ++ rs := by
  intro ps t laid holds
  apply ((h t (laid.orderly orderly)).behind laid (even ps holds)).weaken
  rintro a qs ⟨rs, holds', rfl⟩
  exact ⟨ps, rs, holds, holds', rfl⟩

theorem braced_of_nil : ∀ ps : List Piece, ps = [] → Braced 0 ps := by
  rintro _ rfl
  exact braced_nil

theorem Gives.first (h : Gives m Q) (orderly : s.Orderly) : From s (· = []) m Q := by
  apply (h.behind orderly braced_of_nil).weaken (fun _ => id)
  rintro a _ ⟨_, rs, rfl, holds, rfl⟩
  exact holds

theorem Ends.nested
    (h : Ends { s with depth := s.depth + 1 } Q (m.run { s with depth := s.depth + 1 })) :
    Ends s Q ((nested m).run s) := by
  rw [run_nested]
  split
  · exact From.refuse .nestedTooDeeply (by decide) braced_of_nil [] s .refl rfl
  · have entered : Ends s Q (m.run { s with depth := s.depth + 1 }) := h.enter rfl rfl rfl rfl
    exact entered.redepth _

theorem Gives.nested (h : Gives m Q) : Gives (nested m) Q :=
  fun s orderly =>
    (h { s with depth := s.depth + 1 } ⟨orderly.order, orderly.closed, orderly.solid⟩).nested

/-- Pieces with given trees and no open brace; `begun` asks for at least one token. -/
structure Row (begun : Bool) (ts : List SpanTree) (ps : List Piece) : Prop where
  begun : begun = true → leaves ps ≠ []
  trees : trees ps = ts
  even : Braced 0 ps

/-- The rule gives a result with certain spans. -/
abbrev Views (m : ParseM α) (v : α → List SpanTree) : Prop := Gives m fun a => Row false (v a)

namespace Row

variable {begun : Bool} {ts us : List SpanTree}

theorem nil : Row false [] [] := ⟨nofun, rfl, braced_nil⟩

theorem append (h : Row begun ts ps) (more : Row false us qs) :
    Row begun (ts ++ us) (ps ++ qs) := by
  refine ⟨?_, ?_, h.even.append more.even⟩
  · intro required
    rw [leaves_append]
    exact List.append_ne_nil_of_left_ne_nil (h.begun required) _
  · rw [trees_append, h.trees, more.trees]

theorem push {t : Token} (h : Row begun ts ps) (plain : t.kind.isPlain = true) :
    Row true ts (ps ++ [token t]) := by
  refine ⟨?_, ?_, h.even.push plain⟩
  · simp
  · simp [h.trees]

theorem weaken (h : Row begun ts ps) : Row false ts ps := ⟨nofun, h.trees, h.even⟩

end Row

section Rows

variable {begun : Bool} {ts : List SpanTree}

theorem Views.row {v : α → List SpanTree} (h : Views m v) (orderly : s.Orderly) :
    From s (Row begun ts) m fun a => Row begun (ts ++ v a) := by
  apply (h.behind orderly fun ps row => row.even).weaken (fun _ => id)
  rintro a _ ⟨qs, rs, row, more, rfl⟩
  exact row.append more

theorem Views.skip (h : Views m fun _ => []) (orderly : s.Orderly) :
    From s (Row begun ts) m fun _ => Row begun ts := by
  apply (h.row orderly).weaken (fun _ => id)
  intro a ps row
  rw [List.append_nil] at row
  exact row

theorem row_expect (orderly : s.Orderly) {kind : Kind} (plain : kind.isPlain = true)
    {what : Expected} (other : what ≠ .closeBlock) :
    From s (Row begun ts) (expect kind what) fun _ => Row true ts := by
  apply (From.expect orderly plain other fun ps row => row.even).weaken (fun _ => id)
  rintro t _ ⟨⟨qs, row, rfl⟩, rfl⟩
  exact row.push plain

theorem views_expect {kind : Kind} (plain : kind.isPlain = true) {what : Expected}
    (other : what ≠ .closeBlock) : Views (expect kind what) fun _ => [] := by
  apply From.gives
  intro s orderly
  apply (row_expect orderly plain other).weaken
  · rintro _ rfl
    exact .nil
  · intro t ps row
    exact row.weaken

theorem views_eat {kind : Kind} (plain : kind.isPlain = true) : Views (eat kind) fun _ => [] := by
  apply From.gives
  intro s orderly
  apply (From.eat orderly plain).weaken (fun _ => id)
  intro eaten ps holds
  cases eaten with
  | false =>
      rw [show ps = [] from holds]
      exact .nil
  | true =>
      obtain ⟨t, ⟨_, rfl, rfl⟩, rfl⟩ := holds
      exact (Row.push .nil plain).weaken

theorem views_skipNewlines : Views skipNewlines fun _ => [] := by
  apply From.gives
  intro s orderly
  apply From.skipNewlines.weaken (fun _ => id)
  rintro _ _ ⟨_, ts, rfl, rfl, newlines⟩
  refine ⟨nofun, by simp, braced_tokens ?_⟩
  intro t member
  rw [newlines t member]
  rfl

theorem Views.bind {v : α → List SpanTree} {w : β → List SpanTree} {f : α → ParseM β}
    (hm : Views m v)
    (hf : ∀ s a, s.Orderly → From s (Row false (v a)) (f a) fun b => Row false (w b)) :
    Views (m >>= f) w := by
  apply From.gives
  intro s orderly
  exact (hm.first orderly).bind fun a => hf s a orderly

theorem row_pure {a : α} {v : α → List SpanTree} (h : v a = ts) :
    From s (Row begun ts) (pure a) fun a => Row begun (v a) := by
  apply From.pure
  intro ps row
  rw [h]
  exact row

end Rows

end Parser

end ScriptLens
