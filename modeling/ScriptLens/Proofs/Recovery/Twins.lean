import ScriptLens.Proofs.Parser.Tower
import ScriptLens.Proofs.Recovery.Behind

/-!
One line read twice: on its own, and somewhere in a script. As long as the reader of the line has
not passed its line break, both readers see the same tokens, and line breaks are never skipped
inside parentheses, because those close on the line. So every rule does the same on both sides, up
to the places, unless the reader in the script stands deeper and is stopped by the depth limit.
-/

namespace ScriptLens

open ParseM ScriptLens.Parser

/-- Kinds of tokens through which a statement may reach beyond its line. -/
def Kind.crosses : Kind → Bool
  | lBrace | rBrace | hotkey | kwIf | kwElse | kwElseIf | kwWhile | kwFor | kwLoop | kwClass => true
  | _ => false

/-- The number of open parentheses behind a token. -/
def Kind.opened (k : Nat) : Kind → Nat
  | lParen => k + 1
  | rParen => k - 1
  | _ => k

/-- Kinds that neither end a line nor count as parentheses. -/
def Kind.isInert : Kind → Bool
  | newline | lParen | rParen => false
  | _ => true

theorem Kind.opened_of_isInert {kind : Kind} (h : kind.isInert = true) (k : Nat) :
    kind.opened k = k := by
  unfold opened
  split
  · cases h
  · cases h
  · rfl

theorem Kind.ne_newline_of_isInert {kind : Kind} (h : kind.isInert = true) : kind ≠ .newline := by
  rintro rfl
  cases h

/-- The rest of a line up to its line break, on which a number of open parentheses close. -/
def OnLine : Nat → List Token → Prop
  | _, [] => False
  | k, t :: rest =>
    if t.kind = .newline then k = 0 ∧ rest = []
    else t.kind.crosses = false ∧ (t.kind = .rParen → 0 < k) ∧ OnLine (t.kind.opened k) rest

def ParseCause.isLimit : ParseCause → Bool
  | nestedTooDeeply | chainTooLong => true
  | _ => false

theorem Parser.State.spanFrom_behind {lines : List Char} {s t : State}
    (last : t.last = s.last.behind lines)
    (first : Token) : t.spanFrom (first.behind lines) = (s.spanFrom first).behind lines := by
  unfold State.spanFrom
  rw [last]
  simp only [Token.behind, Position.behind, Nat.add_le_add_iff_right]
  split <;> rfl

/-- What stands around a line in a script: text on both sides, tokens behind it, and what the reader
has taken of levels and dropped before. -/
structure Around where
  before : List Char
  after : List Char
  rest : List Token
  depth : Nat
  skipped : List Skipped
  braceless : ∀ t ∈ rest, t.kind ≠ .lBrace

/-- The reader of the line stands where the reader in the script stands. The token consumed last is
the same on both sides once one was consumed. -/
structure Twin (w : Around) (known : Bool) (k : Nat) (s t : State) : Prop where
  ahead : t.ahead = s.ahead.map (Token.behind w.before) ++ w.rest
  line : OnLine k s.ahead
  last : known = true → t.last = s.last.behind w.before
  depth : t.depth = s.depth + w.depth
  source : t.source = w.before ++ (s.source ++ w.after)
  inside : ∀ u ∈ s.ahead, u.stop.offset ≤ Text.byteLength s.source
  skipped : t.skipped = s.skipped.map (Skipped.behind w.before) ++ w.skipped

namespace Twin

variable {w : Around} {known : Bool} {k : Nat} {s t : State}

theorem weaken (h : Twin w known k s t) : Twin w false k s t :=
  ⟨h.ahead, h.line, nofun, h.depth, h.source, h.inside, h.skipped⟩

theorem cons (h : Twin w known k s t) : ∃ rest, s.ahead = s.peek :: rest ∧
    t.ahead = s.peek.behind w.before :: (rest.map (Token.behind w.before) ++ w.rest) := by
  have line := h.line
  have ahead := h.ahead
  rw [State.peek]
  cases tokens : s.ahead with
  | nil =>
      rw [tokens] at line
      exact line.elim
  | cons u rest =>
      rw [tokens] at ahead
      exact ⟨rest, rfl, ahead⟩

theorem peek (h : Twin w known k s t) : t.peek = s.peek.behind w.before := by
  obtain ⟨rest, _, ahead⟩ := h.cons
  rw [State.peek, ahead]
  rfl

theorem check (h : Twin w known k s t) (kind : Kind) : t.check kind = s.check kind := by
  rw [State.check, h.peek]
  rfl

theorem atEnd (h : Twin w known k s t) : s.atEnd = false ∧ t.atEnd = false := by
  obtain ⟨rest, here, there⟩ := h.cons
  rw [State.atEnd, State.atEnd, here, there]
  exact ⟨rfl, rfl⟩

theorem local_peek (h : Twin w known k s t) (other : s.peek.kind ≠ .newline) :
    s.peek.kind.crosses = false := by
  obtain ⟨rest, here, _⟩ := h.cons
  have line := h.line
  rw [here, OnLine, if_neg other] at line
  exact line.1

theorem advance (h : Twin w known k s t) (other : s.peek.kind ≠ .newline) :
    Twin w true (s.peek.kind.opened k) s.advance t.advance := by
  obtain ⟨rest, here, there⟩ := h.cons
  have line := h.line
  rw [here, OnLine, if_neg other] at line
  rw [State.advance_of_cons here, State.advance_of_cons there]
  refine ⟨rfl, line.2.2, fun _ => rfl, h.depth, h.source, ?_, h.skipped⟩
  intro u member
  exact h.inside u (here ▸ List.mem_cons_of_mem _ member)

theorem advance_inert (h : Twin w known k s t) (inert : s.peek.kind.isInert = true) :
    Twin w true k s.advance t.advance := by
  have next := h.advance (Kind.ne_newline_of_isInert inert)
  rw [Kind.opened_of_isInert inert] at next
  exact next

/-- Inside parentheses no line break comes next. -/
theorem ne_newline (h : Twin w known (k + 1) s t) : s.peek.kind ≠ .newline := by
  intro feed
  obtain ⟨rest, here, _⟩ := h.cons
  have line := h.line
  rw [here, OnLine, if_pos feed] at line
  exact absurd line.1 (Nat.succ_ne_zero k)

theorem skipNewlines_eq (h : Twin w known k s t) (other : s.peek.kind ≠ .newline) :
    s.skipNewlines = s ∧ t.skipNewlines = t := by
  obtain ⟨rest, here, there⟩ := h.cons
  rw [State.skipNewlines, State.skipNewlines, here, there, State.skipNewlines.go,
    State.skipNewlines.go, Token.behind_kind, if_neg other, if_neg other]
  exact ⟨rfl, rfl⟩

end Twin

/-- The two readers have done the same, with `k` parentheses still open, or the one in the script
has met the depth limit. -/
inductive Parallel {α β : Type} (w : Around) (k : Nat) (f : α → β) :
    Except ParseError α × State → Except ParseError β × State → Prop
  | ok {a s t} : Twin w true k s t → Parallel w k f (.ok a, s) (.ok (f a), t)
  | failed {e s t j} : Twin w false j s t →
      Parallel w k f (.error e, s) (.error (e.behind w.before), t)
  | limit {outcome e t} : 0 < w.depth → e.cause.isLimit = true →
      Parallel w k f outcome (.error e, t)

/-- Two rules that do the same, one on the line and one in the script, from `k` open parentheses to
`j`. -/
def Tracks {α β : Type} (w : Around) (known : Bool) (k j : Nat) (f : α → β) (m : ParseM α)
    (m' : ParseM β) : Prop :=
  ∀ s t, Twin w known k s t → Parallel w j f (m.run s) (m'.run t)

section Rules

variable {α β γ δ : Type} {w : Around} {known b : Bool} {j k l : Nat} {s t : State}
  {f : α → β} {g : γ → δ}

theorem Parallel.bind {m : ParseM α} {m' : ParseM β} {n : α → ParseM γ} {n' : β → ParseM δ}
    (h : Parallel w j f (m.run s) (m'.run t)) (next : ∀ a, Tracks w true j l g (n a) (n' (f a))) :
    Parallel w l g ((m >>= n).run s) ((m' >>= n').run t) := by
  rw [run_bind, run_bind]
  generalize m.run s = here at h
  generalize m'.run t = there at h
  cases h with
  | ok twin => exact next _ _ _ twin
  | failed twin => exact .failed twin
  | limit deep cause => exact .limit deep cause

theorem Tracks.bind {m : ParseM α} {m' : ParseM β} {n : α → ParseM γ} {n' : β → ParseM δ}
    (h : Tracks w known k j f m m') (next : ∀ a, Tracks w true j l g (n a) (n' (f a))) :
    Tracks w known k l g (m >>= n) (m' >>= n') :=
  fun s t twin => (h s t twin).bind next

theorem tracks_pure (a : α) : Tracks w true k k f (pure a) (pure (f a)) := fun _ _ twin => .ok twin

theorem tracks_refuse (cause : ParseCause) :
    Tracks w known k j f (refuse cause) (refuse cause) := by
  intro s t twin
  rw [run_refuse, run_refuse, twin.peek]
  exact .failed twin.weaken

theorem Twin.run_advance (twin : Twin w known k s t) (inert : s.peek.kind.isInert = true) :
    Parallel w k (Token.behind w.before) (ParseM.advance.run s) (ParseM.advance.run t) := by
  rw [ParseM.run_advance, ParseM.run_advance, twin.peek]
  exact .ok (twin.advance_inert inert)

/-- A rule that starts with a token of a kind. -/
theorem tracks_expect {kind : Kind} (other : kind ≠ .newline) (what : Expected) : Tracks w known k
    (kind.opened k) (Token.behind w.before) (expect kind what) (expect kind what) := by
  intro s t twin
  rw [run_expect, run_expect, twin.check, twin.peek]
  split
  · next found =>
      have here : s.peek.kind = kind := of_decide_eq_true found
      have next := twin.advance (by rw [here]; exact other)
      rw [here] at next
      exact .ok next
  · exact .failed twin.weaken

theorem tracks_eat {kind : Kind} (other : kind ≠ .newline) {n : Bool → ParseM γ}
    {n' : Bool → ParseM δ} (yes : Tracks w true (kind.opened k) l g (n true) (n' true))
    (no : Tracks w known k l g (n false) (n' false)) :
    Tracks w known k l g (eat kind >>= n) (eat kind >>= n') := by
  intro s t twin
  rw [run_bind, run_bind, run_eat, run_eat, twin.check]
  by_cases found : s.check kind = true
  · have here : s.peek.kind = kind := of_decide_eq_true found
    have next := twin.advance (by rw [here]; exact other)
    rw [here] at next
    simp only [found, if_true]
    exact yes _ _ next
  · simp only [found]
    exact no _ _ twin

/-- Line breaks are not skipped inside parentheses: none comes next. -/
theorem tracks_skipNewlines : Tracks w true (k + 1) (k + 1) id skipNewlines skipNewlines := by
  intro s t twin
  obtain ⟨here, there⟩ := twin.skipNewlines_eq twin.ne_newline
  rw [run_skipNewlines, run_skipNewlines, here, there]
  exact .ok twin

theorem Twin.deepen (twin : Twin w known k s t) :
    Twin w known k { s with depth := s.depth + 1 } { t with depth := t.depth + 1 } := by
  have depth : t.depth + 1 = s.depth + 1 + w.depth := by
    rw [twin.depth]
    omega
  exact ⟨twin.ahead, twin.line, twin.last, depth, twin.source, twin.inside, twin.skipped⟩

theorem Twin.surface (twin : Twin w known k s t) (deep : 0 < s.depth) :
    Twin w known k { s with depth := s.depth - 1 } { t with depth := t.depth - 1 } := by
  have depth : t.depth - 1 = s.depth - 1 + w.depth := by
    rw [twin.depth]
    omega
  exact ⟨twin.ahead, twin.line, twin.last, depth, twin.source, twin.inside, twin.skipped⟩

theorem Parallel.nested {m : ParseM α} {m' : ParseM β} (twin : Twin w known k s t)
    (climbs : Climbs b m) (inside : Parallel w j f
      (m.run { s with depth := s.depth + 1 }) (m'.run { t with depth := t.depth + 1 })) :
    Parallel w j f ((nested m).run s) ((nested m').run t) := by
  have depth := twin.depth
  have up := (climbs { s with depth := s.depth + 1 }).2
  rw [run_nested, run_nested]
  by_cases deep : maxDepth ≤ s.depth
  · rw [if_pos deep, if_pos (by omega), twin.peek]
    exact .failed twin.weaken
  rw [if_neg deep]
  -- only the reader in the script may be stopped: it stands deeper
  by_cases deep' : maxDepth ≤ t.depth
  · rw [if_pos deep']
    exact .limit (by omega) rfl
  rw [if_neg deep']
  generalize m.run { s with depth := s.depth + 1 } = here at inside up
  generalize m'.run { t with depth := t.depth + 1 } = there at inside
  have above := Nat.lt_of_lt_of_le (Nat.succ_pos s.depth) up
  cases inside with
  | ok twin => exact .ok (twin.surface above)
  | failed twin => exact .failed (twin.surface above)
  | limit deep cause => exact .limit deep cause

theorem Tracks.nested {m : ParseM α} {m' : ParseM β} (h : Tracks w known k j f m m')
    (climbs : Climbs b m) : Tracks w known k j f (nested m) (nested m') :=
  fun _ _ twin => .nested twin climbs (h _ _ twin.deepen)

theorem Tracks.chain {m : ParseM α} {m' : ParseM β} (h : Tracks w known k j f m m') :
    Tracks w known k j f (chain m) (chain m') := by
  intro s t twin
  have inside := h s t twin
  rw [run_chain, run_chain]
  generalize m.run s = here at inside
  generalize m'.run t = there at inside
  have left : ∀ {c i} {u v : State}, Twin w c i u v →
      Twin w c i { u with depth := s.depth } { v with depth := t.depth } :=
    fun twin' =>
      ⟨twin'.ahead, twin'.line, twin'.last, twin.depth, twin'.source, twin'.inside, twin'.skipped⟩
  cases inside with
  | ok twin => exact .ok (left twin)
  | failed twin => exact .failed (left twin)
  | limit deep cause => exact .limit deep cause

theorem tracks_link : Tracks w true k k id link link := by
  intro s t twin
  have depth := twin.depth
  rw [run_link, run_link]
  by_cases deep : maxDepth ≤ s.depth
  · rw [if_pos deep, if_pos (by omega), twin.peek]
    exact .failed twin.weaken
  rw [if_neg deep]
  by_cases deep' : maxDepth ≤ t.depth
  · rw [if_pos deep']
    exact .limit (by omega) rfl
  rw [if_neg deep']
  have depth' : t.depth + 1 = s.depth + 1 + w.depth := by omega
  exact .ok ⟨twin.ahead, twin.line, twin.last, depth', twin.source, twin.inside, twin.skipped⟩

theorem Tracks.repeating {step : α → ParseM (α × Bool)} {step' : β → ParseM (β × Bool)}
    (h : ∀ a, Tracks w true k k (Prod.map f id) (step a) (step' (f a))) (a : α) :
    Tracks w true k k f (repeating step a) (repeating step' (f a)) := by
  intro s t twin
  -- both loops go on together: the tokens behind the line change no comparison of what is left
  induction size : s.ahead.length using Nat.strongRecOn generalizing a s t with
  | _ n ih =>
      have first := h a s t twin
      have same : t.ahead.length = s.ahead.length + w.rest.length := by
        rw [twin.ahead, List.length_append, List.length_map]
      rw [run_repeating, run_repeating]
      generalize (step a).run s = here at first
      generalize (step' (f a)).run t = there at first
      cases first with
      | failed twin' => exact .failed twin'
      | limit deep cause => exact .limit deep cause
      | @ok next s' t' twin' =>
          obtain ⟨c, more⟩ := next
          have same' : t'.ahead.length = s'.ahead.length + w.rest.length := by
            rw [twin'.ahead, List.length_append, List.length_map]
          have guards : (more = true ∧ t'.ahead.length < t.ahead.length) ↔
              (more = true ∧ s'.ahead.length < s.ahead.length) := by
            rw [same, same', Nat.add_lt_add_iff_right]
          simp only [Prod.map_apply, id_eq, guards]
          split
          · next shorter => exact ih _ (size ▸ shorter.2) c s' t' twin' rfl
          · exact .ok twin'

end Rules

/-- An expression rule that does the same on both sides and closes the parentheses it opens. -/
def Mirrored (w : Around) (m : ParseM Expr) : Prop :=
  ∀ known k, Tracks w known k k (Expr.behind w.before) m m

/-- The rules of a level that expressions on a line use. -/
structure Level.Mirrored (w : Around) (inner : Level) : Prop where
  assignment : ScriptLens.Mirrored w inner.assignment
  unary : ScriptLens.Mirrored w inner.unary
  returns : inner.Returns

namespace Parser

variable {w : Around} {inner : Level} {item operand : ParseM Expr} {known : Bool}
  {k : Nat} {s t : State}

theorem expression_mirrored (h : inner.Mirrored w) : Mirrored w (expression inner) :=
  fun known k => (h.assignment known k).nested h.returns.assignment.climbs

theorem itemLink_tracks (h : Mirrored w item) (items : List Expr) :
    Tracks w true (k + 1) (k + 1) (Prod.map (List.map (Expr.behind w.before)) id)
    (itemLink item items) (itemLink item (items.map (Expr.behind w.before))) := by
  apply (h true (k + 1)).bind
  intro e
  apply tracks_skipNewlines.bind
  intro _
  apply tracks_eat (by decide)
  · apply tracks_skipNewlines.bind
    intro _
    exact tracks_pure (e :: items, true)
  · exact tracks_pure (e :: items, false)

theorem inParens_tracks (h : Mirrored w item) (closing : Expected) : Tracks w true (k + 1) k
    (List.map (Expr.behind w.before)) (inParens item closing) (inParens item closing) := by
  have close : ∀ items : List Expr, Tracks w true (k + 1) k (List.map (Expr.behind w.before))
      (expect .rParen closing >>= fun _ => pure items.reverse)
      (expect .rParen closing >>= fun _ => pure (items.map (Expr.behind w.before)).reverse) := by
    intro items
    rw [← List.map_reverse]
    exact (tracks_expect (by decide) closing).bind fun _ => tracks_pure _
  apply tracks_skipNewlines.bind
  intro _ s t twin
  rw [run_bind_ok (run_check .rParen s), run_bind_ok (run_check .rParen t), twin.check]
  split
  · exact Tracks.bind (tracks_pure []) close s t twin
  · exact Tracks.bind (Tracks.repeating (itemLink_tracks h) []) close s t twin

theorem primaryToken_parallel (twin : Twin w known k s t) (inert : s.peek.kind.isInert = true)
    (e : Expr) : Parallel w k (Expr.behind w.before) ((advance >>= fun _ => pure e).run s)
      ((advance >>= fun _ => pure (e.behind w.before)).run t) :=
  (twin.run_advance inert).bind fun _ => tracks_pure e

theorem group_parallel (h : inner.Mirrored w) (twin : Twin w known k s t)
    (kind : s.peek.kind = .lParen) :
    Parallel w k (Expr.behind w.before) ((advance >>= fun _ => expression inner >>= fun e =>
        expect .rParen .closeGroup >>= fun _ => pure e).run s) ((advance >>= fun _ =>
        expression inner >>= fun e => expect .rParen .closeGroup >>= fun _ => pure e).run t) := by
  have opened := twin.advance (by rw [kind]; decide)
  rw [kind] at opened
  rw [run_bind_ok (run_advance s), run_bind_ok (run_advance t)]
  apply Tracks.bind (expression_mirrored h true (k + 1)) _ _ _ opened
  intro e
  exact (tracks_expect (by decide) _).bind fun _ => tracks_pure e

theorem primary_mirrored (h : inner.Mirrored w) : Mirrored w (primary inner) := by
  intro known k s t twin
  have inert : ∀ {kind : Kind}, s.peek.kind = kind → kind.isInert = true →
      s.peek.kind.isInert = true := by
    rintro kind rfl
    exact id
  rw [primary, run_bind_ok (run_get s), run_bind_ok (run_get t), twin.peek]
  dsimp only
  rw [Token.behind_kind]
  split
  case h_8 kind => exact group_parallel h twin kind
  case h_9 => exact tracks_refuse _ s t twin
  all_goals
    next kind => exact primaryToken_parallel twin (inert kind rfl) _

theorem postfixLink_tracks (h : inner.Mirrored w) (e : Expr) :
    Tracks w true k k (Prod.map (Expr.behind w.before) id) (postfixLink inner e)
      (postfixLink inner (e.behind w.before)) := by
  apply tracks_eat (by decide)
  · apply tracks_link.bind
    intro _
    apply (inParens_tracks (expression_mirrored h) .closeArguments).bind
    intro args s t twin
    rw [run_bind_ok (run_get s), run_bind_ok (run_get t), twin.last rfl, Expr.behind_span,
      Token.behind_span, Span.cover_behind, ← Expr.behind_call]
    exact .ok twin
  · apply tracks_eat (by decide)
    · apply tracks_link.bind
      intro _ s t twin
      rw [run_bind_ok (run_get s), run_bind_ok (run_get t), twin.peek]
      dsimp only
      rw [Token.behind_kind]
      split
      · next name =>
          have inert : s.peek.kind.isInert = true := by
            rcases name with kind | kind
            · rw [kind]
              rfl
            · rw [kind]
              rfl
          apply (twin.run_advance inert).bind
          intro _
          rw [Expr.behind_span, Token.behind_span, Span.cover_behind]
          exact tracks_pure (Expr.member e s.peek.text (e.span.cover s.peek.span), true)
      · exact tracks_refuse _ s t twin
    · exact tracks_pure (e, false)

theorem postfixed_mirrored (h : inner.Mirrored w) : Mirrored w (postfixed inner) := by
  intro known k
  apply Tracks.chain
  apply (primary_mirrored h known k).bind
  exact Tracks.repeating (postfixLink_tracks h)

theorem unary_mirrored (h : inner.Mirrored w) : Mirrored w (unary inner) := by
  intro known k s t twin
  have signed : ∀ operator, s.peek.kind.isInert = true → Parallel w k (Expr.behind w.before)
      ((advance >>= fun _ => nested inner.unary >>= fun argument =>
        pure (Expr.unary operator argument (s.peek.span.cover argument.span))).run s)
      ((advance >>= fun _ => nested inner.unary >>= fun argument =>
        pure (Expr.unary operator argument ((s.peek.behind w.before).span.cover argument.span))).run
            t) := by
    intro operator inert
    apply (twin.run_advance inert).bind
    intro _
    apply ((h.unary true k).nested h.returns.unary.climbs).bind
    intro argument
    rw [Expr.behind_span, Token.behind_span, Span.cover_behind]
    exact tracks_pure (Expr.unary operator argument (s.peek.span.cover argument.span))
  rw [unary, run_bind_ok (run_get s), run_bind_ok (run_get t), twin.peek]
  dsimp only
  rw [Token.behind_kind]
  split
  case h_1 kind => exact signed .not (by rw [kind]; rfl)
  case h_2 kind => exact signed .negate (by rw [kind]; rfl)
  case h_3 => exact postfixed_mirrored h known k s t twin

section Chain

variable {operator? : Kind → Option BinaryOp}
  (inert : ∀ kind, operator? kind ≠ none → kind.isInert = true)
include inert

theorem binaryLink_tracks (h : Mirrored w operand) (left : Expr) :
    Tracks w true k k (Prod.map (Expr.behind w.before) id) (binaryLink operator? operand left)
      (binaryLink operator? operand (left.behind w.before)) := by
  intro s t twin
  rw [binaryLink, binaryLink, run_bind_ok (run_get s), run_bind_ok (run_get t), twin.peek,
    Token.behind_kind]
  cases found : operator? s.peek.kind with
  | none => exact .ok twin
  | some operator =>
      apply (twin.run_advance (inert _ (by simp [found]))).bind
      intro _
      apply tracks_link.bind
      intro _
      apply (h true k).bind
      intro right
      have joined : binary operator (left.behind w.before) (right.behind w.before) =
          (binary operator left right).behind w.before := by
        rw [binary, Expr.behind_span, Expr.behind_span, Span.cover_behind]
        rfl
      rw [joined]
      exact tracks_pure (binary operator left right, true)

theorem leftChain_mirrored (h : Mirrored w operand) : Mirrored w (leftChain operator? operand) := by
  intro known k
  apply Tracks.chain
  apply (h known k).bind
  exact Tracks.repeating (binaryLink_tracks inert h)

end Chain

theorem disjunction_mirrored (h : inner.Mirrored w) : Mirrored w (disjunction inner) := by
  have inert : ∀ kind ∈ operatorKinds, kind.isInert = true := by decide
  refine disjunction_of_operands (unary_mirrored h) fun _ _ signs operand => ?_
  exact leftChain_mirrored (fun kind found => inert kind (signs kind found)) operand

theorem assignment_mirrored (h : inner.Mirrored w) : Mirrored w (assignment inner) := by
  intro known k
  apply (disjunction_mirrored h known k).bind
  intro target s t twin
  rw [run_bind_ok (run_check .assign s), run_bind_ok (run_check .assign t), twin.check,
    Expr.behind_isTarget]
  split
  · next found =>
      have inert : s.peek.kind.isInert = true := by
        rw [of_decide_eq_true found]
        rfl
      split
      · apply (twin.run_advance inert).bind
        intro _
        apply ((h.assignment true k).nested h.returns.assignment.climbs).bind
        intro value
        rw [Expr.behind_span, Expr.behind_span, Span.cover_behind]
        exact tracks_pure (Expr.assignment target value (target.span.cover value.span))
      · exact tracks_refuse _ s t twin
  · exact .ok twin

theorem tower_mirrored (levels : Nat) : (tower levels).Mirrored w := by
  induction levels with
  | zero => exact ⟨fun _ _ => tracks_refuse _, fun _ _ => tracks_refuse _, tower_returns 0⟩
  | succ levels ih => exact ⟨assignment_mirrored ih, unary_mirrored ih, tower_returns (levels + 1)⟩

theorem rules_mirrored : rules.Mirrored w := tower_mirrored _

end Parser

end ScriptLens
