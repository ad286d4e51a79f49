import ScriptLens.Proofs.Spans.Statements

/-!
The pieces of a whole script: its tokens without comments, in their places, laid out as the
statements and the dropped statements that the parser gives.
-/

namespace ScriptLens

open Piece ParseM

/-- The places of tokens that tile a script are those of their offsets. -/
theorem Tiled.placed {source : String} {tokens : List Token} (h : Tiled .start source.toList tokens)
    {t : Token} (member : t ∈ tokens) : t.span.Placed source := by
  obtain ⟨before, body, behind, text, covers⟩ := h.place member
  have size : source.utf8ByteSize = Text.byteLength before + Text.byteLength body +
      Text.byteLength behind := by
    rw [← Text.byteLength_toList, text, Text.byteLength_append, Text.byteLength_append,
      Nat.add_assoc]
  have start : t.start = Position.start.after before := covers.start
  have stop : t.stop = Position.start.after (before ++ body) := by
    rw [covers.stop, Position.after_append]
  refine ⟨Nat.le_of_lt covers.start_lt_stop, ?_, ?_, ?_⟩
  · change t.stop.offset ≤ _
    rw [stop, Position.after_offset, Text.byteLength_append, Position.start_offset, size]
    omega
  · change Position.ofOffset source t.start.offset = t.start
    rw [start]
    exact Position.ofOffset_after text
  · change Position.ofOffset source t.stop.offset = t.stop
    rw [stop]
    apply Position.ofOffset_after
    rw [text, List.append_assoc]

namespace Parser

theorem State.ofTokens_split (source : String) {front : List Token} {last : Token}
    (closing : last.kind = .eof) (others : ∀ t ∈ front, t.kind ≠ .eof) :
    State.prepare (front ++ [last]) = front.filter (·.kind != .comment) ++ [last] ∧
      (State.ofTokens source (front ++ [last])).ahead = front.filter (·.kind != .comment) ∧
      (State.ofTokens source (front ++ [last])).final = last := by
  have kept : (front ++ [last]).filter (·.kind != .comment) =
      front.filter (·.kind != .comment) ++ [last] := by
    rw [List.filter_append]
    simp [closing]
  have prepared :
      State.prepare (front ++ [last]) = front.filter (·.kind != .comment) ++ [last] := by
    rw [State.prepare, kept, List.getLast?_append]
    simp [closing]
  have none : ∀ t ∈ front.filter (·.kind != .comment), (t.kind != .eof) = true := by
    intro t member
    simpa using others t (List.mem_filter.mp member).1
  have ahead : (front.filter (·.kind != .comment) ++ [last]).takeWhile (·.kind != .eof) =
      front.filter (·.kind != .comment) := by
    rw [List.takeWhile_append_of_pos none]
    simp [closing]
  have final :
      (front.filter (·.kind != .comment) ++ [last]).find? (·.kind == .eof) = some last := by
    rw [List.find?_append, List.find?_eq_none.mpr (by simpa using none)]
    simp [closing]
  refine ⟨prepared, ?_, ?_⟩
  · rw [State.ofTokens, prepared]
    exact ahead
  · rw [State.ofTokens, prepared, final]
    rfl

end Parser

/-- The tokens of a script, all but the end mark, tile it. -/
structure Scanned (source : String) (front : List Token) (last : Token) : Prop where
  tokens : tokenize source = .ok (front ++ [last])
  tiled : Tiled .start source.toList front
  closing : last.kind = .eof
  start : last.start = Position.start.after source.toList
  stop : last.stop = Position.start.after source.toList

theorem tokenize_scanned {source : String} {tokens : List Token}
    (h : tokenize source = .ok tokens) :
    ∃ front last, tokens = front ++ [last] ∧ Scanned source front last := by
  have given := h
  unfold tokenize at h
  dsimp only at h
  split at h
  · next clean =>
      cases h
      have holds := Scanner.initial_holds.run source.toList clean
      rw [List.nil_append] at holds
      exact ⟨_, _, rfl, given, holds.tiled, rfl, holds.here, holds.here⟩
  · cases h

namespace Scanned

variable {source : String} {front : List Token} {last : Token}

theorem others (h : Scanned source front last) : ∀ t ∈ front, t.kind ≠ .eof := by
  intro t member
  obtain ⟨before, body, behind, text, covers⟩ := h.tiled.place member
  exact covers.kind

theorem inOrder (h : Scanned source front last) : InOrder front := by
  constructor
  · exact h.tiled.ordered
  · intro t member
    obtain ⟨before, body, behind, text, covers⟩ := h.tiled.place member
    exact covers.start_lt_stop

theorem apart (h : Scanned source front last) :
    (front ++ [last]).Pairwise fun a b => a.stop.offset ≤ b.start.offset := by
  apply List.pairwise_append.mpr
  refine ⟨h.tiled.ordered, List.pairwise_singleton _ _, ?_⟩
  intro a member b final
  rw [List.mem_singleton.mp final, h.start]
  exact h.tiled.stop_le member

theorem start_lt_stop {before behind : List Token} {t : Token} (h : Scanned source front last)
    (place : front ++ [last] = before ++ t :: behind) (solid : t.kind ≠ .eof) :
    t.start.offset < t.stop.offset := by
  have member : t ∈ front ++ [last] := by simp [place]
  rcases List.mem_append.mp member with inside | final
  · exact h.inOrder.nonempty t inside
  · rw [List.mem_singleton.mp final] at solid
    exact absurd h.closing solid

/-- The tokens behind a token are those that start from anywhere behind its first character on. -/
theorem filter_from {before behind : List Token} {t : Token} {n : Nat}
    (h : Scanned source front last) (place : front ++ [last] = before ++ t :: behind)
    (beyond : t.start.offset < n) (within : n ≤ t.stop.offset) :
    (front ++ [last]).filter (n ≤ ·.start.offset) = behind := by
  have apart := h.apart
  have wide : ∀ u ∈ front ++ [last], u.start.offset ≤ u.stop.offset := by
    intro u member
    rcases List.mem_append.mp member with inside | final
    · exact Nat.le_of_lt (h.inOrder.nonempty u inside)
    · rw [List.mem_singleton.mp final, h.start, h.stop]
  rw [place] at apart wide ⊢
  have none : before.filter (n ≤ ·.start.offset) = [] := by
    refine List.filter_eq_nil_iff.mpr fun u earlier => ?_
    have := (List.pairwise_append.mp apart).2.2 u earlier t List.mem_cons_self
    have := wide u (List.mem_append_left _ earlier)
    rw [decide_eq_true_eq]
    omega
  have all : behind.filter (n ≤ ·.start.offset) = behind := by
    refine List.filter_eq_self.mpr fun u later => decide_eq_true ?_
    have := List.rel_of_pairwise_cons (List.pairwise_append.mp apart).2.1 later
    omega
  rw [List.filter_append, none, List.filter_cons_of_neg (by rw [decide_eq_true_eq]; omega), all,
    List.nil_append]

theorem size (h : Scanned source front last) : last.stop.offset = source.utf8ByteSize := by
  rw [h.stop, Position.after_offset, Position.start_offset, Nat.zero_add, Text.byteLength_toList]

theorem orderly (h : Scanned source front last) :
    (Parser.State.ofTokens source (front ++ [last])).Orderly := by
  obtain ⟨_, ahead, final⟩ := Parser.State.ofTokens_split source h.closing h.others
  have kept : (front.filter (·.kind != .comment)).Sublist front := List.filter_sublist
  refine ⟨?_, ?_, ?_⟩
  · rw [ahead]
    exact h.inOrder.sublist kept
  · unfold Parser.State.Closed
    rw [final]
    exact h.closing
  · intro t member
    rw [ahead] at member
    exact h.others t (kept.subset member)

end Scanned

/-- The pieces of a script: its tokens without comments, its statements and those that were
dropped. -/
structure LaidOut (front : List Token) (last : Token) (out : ParseOutput)
    (ps : List Piece) : Prop where
  leaves : leaves ps = front.filter (·.kind != .comment)
  trees : trees ps = out.program.body.map Stmt.spans
  entries : entries ps = out.skipped
  span : out.program.span = ⟨.start, last.stop⟩
  sound : Sound [last] ps
  even : Braced 0 ps

theorem LaidOut.inOrder {source : String} {front : List Token} {last : Token} {out : ParseOutput}
    {ps : List Piece} (laid : LaidOut front last out ps) (scanned : Scanned source front last) :
    InOrder (Piece.leaves ps) := by
  rw [laid.leaves]
  exact scanned.inOrder.sublist List.filter_sublist

theorem parse_eq_ok {source : String} {out : ParseOutput} (h : parse source = .ok out) :
    ∃ tokens, tokenize source = .ok tokens ∧ parseTokens source tokens = out := by
  unfold parse at h
  cases scanned : tokenize source with
  | error e =>
      rw [scanned] at h
      cases h
  | ok tokens =>
      rw [scanned] at h
      exact ⟨tokens, rfl, Except.ok.inj h⟩

/-- A result that can be evaluated. -/
theorem ok_of_toOption {ε α β : Type} {result : Except ε α} {f : α → β} {b : β}
    (h : result.toOption.map f = some b) : ∃ a, result = .ok a ∧ f a = b := by
  cases result with
  | error e => cases h
  | ok a => exact ⟨a, rfl, Option.some.inj h⟩

theorem parse_laidOut {source : String} {out : ParseOutput} (h : parse source = .ok out) :
    ∃ front last ps, Scanned source front last ∧ LaidOut front last out ps := by
  obtain ⟨tokens, read, rfl⟩ := parse_eq_ok h
  obtain ⟨front, last, rfl, scanned⟩ := tokenize_scanned read
  obtain ⟨prepared, ahead, final⟩ :=
    Parser.State.ofTokens_split source scanned.closing scanned.others
  obtain ⟨body, t, run, atEnd⟩ := Parser.script_ok scanned.orderly.closed
  obtain ⟨same, skipped⟩ := Parser.parseTokens_of_run run
  have ends := Parser.statementsUntil_views Parser.rules_stands (fun _ => id) _ scanned.orderly
  rw [← Parser.script, run] at ends
  obtain ⟨ps, laid, row⟩ := ends
  have nothing : t.ahead = [] := List.isEmpty_iff.mp atEnd
  refine ⟨front, last, ps, scanned, ?_, ?_, ?_, ?_, ?_, row.even⟩
  · rw [← ahead, laid.ahead, nothing, List.append_nil]
  · rw [same]
    exact row.trees
  · rw [skipped, laid.skipped]
    simp [Parser.State.ofTokens]
  · change Span.mk .start
      ((Parser.State.prepare (front ++ [last])).getLastD Parser.State.fallbackEnd).stop = _
    rw [prepared]
    simp
  · have sound := laid.sound
    rw [nothing, laid.final, final] at sound
    exact sound

end ScriptLens
