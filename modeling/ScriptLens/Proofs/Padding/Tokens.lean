import ScriptLens.Proofs.Recovery.Abreast

/-!
Tokens with further line breaks behind line breaks, and two parsers that read them with and without
these. As long as neither stands between two such line breaks, every look at the tokens ahead gives
the same answer: line breaks are looked at one at a time or passed over together.
-/

namespace ScriptLens

open ScriptLens.Parser

namespace Token

/-- The script from the first to the last token before the line break. -/
def lineText (source : List Char) (ts : List Token) : List Char :=
  let line := ts.takeWhile (·.kind != .newline)
  match line.head?, line.getLast? with
  | some a, some b => (Text.slice? source a.start.offset b.stop.offset).getD []
  | _, _ => []

end Token

/-- Two token lists of the same script, the second with further line breaks behind line breaks. What
is left of a line has the same text in both. -/
inductive Padded (source source' : List Char) : List Token → List Token → Prop
  | done : Padded source source' [] []
  | token {t u : Token} {ts us : List Token} : t.kind ≠ .newline → u.kind = t.kind →
      u.text = t.text → Token.lineText source' (u :: us) = Token.lineText source (t :: ts) →
      Padded source source' ts us → Padded source source' (t :: ts) (u :: us)
  | feed {t u : Token} {extra ts us : List Token} : t.kind = .newline → u.kind = .newline →
      (∀ v ∈ extra, v.kind = .newline) → Padded source source' ts us →
      Padded source source' (t :: ts) (u :: (extra ++ us))

/-- The second list has further line breaks in front as well. -/
def Late (source source' : List Char) (ts us : List Token) : Prop :=
  ∃ extra rest, us = extra ++ rest ∧ (∀ v ∈ extra, v.kind = .newline) ∧
    Padded source source' ts rest

namespace Token

theorem dropWhile_feeds {extra : List Token} (h : ∀ v ∈ extra, v.kind = .newline)
    (us : List Token) :
    (extra ++ us).dropWhile (·.kind = .newline) = us.dropWhile (·.kind = .newline) :=
  List.dropWhile_append_of_pos (by simpa using h)

theorem pastParens_feed {t : Token} (h : t.kind = .newline) (depth : Nat) (ts : List Token) :
    pastParens depth (t :: ts) = pastParens depth ts := by
  rw [pastParens, h]

theorem pastParens_feeds {extra : List Token} (h : ∀ v ∈ extra, v.kind = .newline) (depth : Nat)
    (us : List Token) : pastParens depth (extra ++ us) = pastParens depth us := by
  induction extra with
  | nil => rfl
  | cons v extra ih =>
      rw [List.cons_append, pastParens_feed (h v List.mem_cons_self)]
      exact ih fun w member => h w (List.mem_cons_of_mem v member)

end Token

namespace Padded

variable {source source' : List Char} {ts us : List Token}

theorem late (h : Padded source source' ts us) : Late source source' ts us :=
  ⟨[], us, rfl, by simp, h⟩

theorem head_kind (h : Padded source source' ts us) :
    us.head?.map Token.kind = ts.head?.map Token.kind := by
  cases h with
  | done => rfl
  | token _ kind => exact congrArg some kind
  | feed kind kind' => exact congrArg some (kind'.trans kind.symm)

theorem lineText (h : Padded source source' ts us) :
    Token.lineText source' us = Token.lineText source ts := by
  cases h with
  | done => rfl
  | token _ _ _ text => exact text
  | feed kind kind' => simp [Token.lineText, kind, kind']

theorem dropFeeds (h : Padded source source' ts us) : Padded source source'
    (ts.dropWhile (·.kind = .newline)) (us.dropWhile (·.kind = .newline)) := by
  induction h with
  | done => exact .done
  | token other kind text line rest =>
      rw [List.dropWhile_cons_of_neg (by simpa using other),
        List.dropWhile_cons_of_neg (by simpa [kind] using other)]
      exact .token other kind text line rest
  | feed kind kind' extra _ ih =>
      rw [List.dropWhile_cons_of_pos (by simpa using kind),
        List.dropWhile_cons_of_pos (by simpa using kind'), Token.dropWhile_feeds extra]
      exact ih

/-- A closing parenthesis is found at the same place. -/
theorem pastParens (h : Padded source source' ts us) (depth : Nat) :
    Option.Rel (Padded source source') (Token.pastParens depth ts) (Token.pastParens depth us) := by
  induction h generalizing depth with
  | done => exact .none
  | token other kind _ _ rest ih =>
      rw [Token.pastParens, Token.pastParens, kind]
      split
      · exact ih _
      · split
        · exact .some rest
        · exact ih _
      · exact .none
      · exact .none
      · exact .none
      · exact ih _
  | feed kind kind' extra _ ih =>
      rw [Token.pastParens_feed kind, Token.pastParens_feed kind', Token.pastParens_feeds extra]
      exact ih depth

theorem headsDeclaration (h : Padded source source' ts us) :
    Token.headsDeclaration (· = .newline) us = Token.headsDeclaration (· = .newline) ts := by
  have starts {t : Token} (kind : t.kind = .newline) (rest : List Token) :
      Token.headsDeclaration (· = .newline) (t :: rest) = false := by
    cases rest <;> simp [Token.headsDeclaration, kind]
  have breaks {t u : Token} (kind : u.kind = .newline) (rest : List Token) :
      Token.headsDeclaration (· = .newline) (t :: u :: rest) = false := by
    simp [Token.headsDeclaration, kind]
  cases h with
  | done => rfl
  | feed kind kind' => rw [starts kind, starts kind']
  | token _ named _ _ rest =>
      cases rest with
      | done => rfl
      | feed kind kind' => rw [breaks kind, breaks kind']
      | token _ opened _ _ rest =>
          have closed := rest.pastParens 1
          rw [Token.headsDeclaration, Token.headsDeclaration, named, opened]
          generalize Token.pastParens 1 _ = past at closed
          generalize Token.pastParens 1 _ = past' at closed
          cases closed with
          | none => rfl
          | some rest =>
              have head := rest.dropFeeds.head_kind
              dsimp only
              generalize List.dropWhile _ _ = behind at head
              generalize List.dropWhile _ _ = behind' at head
              cases behind with
              | nil =>
                  cases behind' with
                  | nil => rfl
                  | cons u us => cases head
              | cons t ts =>
                  cases behind' with
                  | nil => cases head
                  | cons u us =>
                      have kind : t.kind = u.kind := by simpa using head
                      dsimp only
                      rw [kind]

end Padded

namespace Parser

/-- Two parsers whose tokens ahead are in a relation and that are the same otherwise, up to
places. -/
structure Together (R : List Char → List Char → List Token → List Token → Prop)
    (s t : State) : Prop where
  ahead : R s.source t.source s.ahead t.ahead
  depth : t.depth = s.depth
  closed : s.Closed
  final : t.final.kind = s.final.kind ∧ t.final.text = s.final.text
  skipped : t.skipped.map (·.error.message) = s.skipped.map (·.error.message)

/-- Both parsers stand at the same token. -/
abbrev InStep : State → State → Prop := Together Padded

/-- Both parsers stand at the same token once the second has passed over line breaks. -/
abbrev Lagging : State → State → Prop := Together Late

variable {s t : State} {R R' : List Char → List Char → List Token → List Token → Prop}

/-- Quiet walks change the tokens ahead and the depth only. -/
theorem Together.walk (h : Together R s t) {s' t' : State} (walk : Walk false s s')
    (walk' : Walk false t t') (ahead : R' s.source t.source s'.ahead t'.ahead)
    (depth : t'.depth = s'.depth) : Together R' s' t' := by
  refine ⟨?_, depth, h.closed.walk walk, ?_, ?_⟩
  · rw [walk.source, walk'.source]
    exact ahead
  · rw [walk.final, walk'.final]
    exact h.final
  · rw [walk.skipped, walk'.skipped]
    exact h.skipped

theorem InStep.lagging (h : InStep s t) : Lagging s t :=
  ⟨h.ahead.late, h.depth, h.closed, h.final, h.skipped⟩

/-- What two parsers at the same token have ahead. -/
inductive Next (s t : State) : Prop
  | ended : s.ahead = [] → t.ahead = [] → Next s t
  | token {a b : Token} {ts us : List Token} : s.ahead = a :: ts → t.ahead = b :: us →
      a.kind ≠ .newline →
      b.kind = a.kind → b.text = a.text → Padded s.source t.source ts us → Next s t
  | feed {a b : Token} {ts us : List Token} : s.ahead = a :: ts → t.ahead = b :: us →
      a.kind = .newline → b.kind = .newline → Late s.source t.source ts us → Next s t

theorem InStep.next (h : InStep s t) : Next s t := by
  have tokens := h.ahead
  generalize here : s.ahead = ts at tokens
  generalize there : t.ahead = us at tokens
  cases tokens with
  | done => exact .ended here there
  | token other kind text _ rest => exact .token here there other kind text rest
  | feed kind kind' extra rest => exact .feed here there kind kind' ⟨_, _, rfl, extra, rest⟩

theorem Together.closed' (h : Together R s t) : t.Closed := h.final.1.trans h.closed

namespace State

/-- Recovery goes on token by token up to a line break or a word at which it stops. -/
theorem synchronize_of_cons {s : State} {t : Token} {rest : List Token}
    (ahead : s.ahead = t :: rest) :
    s.synchronize = if t.kind = .newline ∨ rest.head?.any (·.kind.resumes) then s.advance
      else s.advance.synchronize := by
  have next : s.advance.ahead = rest := by rw [advance_of_cons ahead]
  have last : s.advance.last = t := by rw [advance_of_cons ahead]
  change synchronize.go s.advance.ahead s.advance = _
  cases rest with
  | nil =>
      have still : s.advance.synchronize = s.advance := by
        rw [synchronize, advance_of_nil next, next]
        rfl
      rw [next, still, ite_self]
      rfl
  | cons u rest =>
      have moved : s.advance.advance.ahead = rest := by rw [advance_of_cons next]
      rw [next, synchronize_go_cons, last]
      rw [List.head?_cons, Option.any_some]
      split
      · rfl
      · rw [synchronize, moved]

end State

namespace InStep

theorem peek_kind (h : InStep s t) : t.peek.kind = s.peek.kind := by
  rw [State.peek, State.peek]
  cases h.next with
  | ended here there =>
      rw [here, there]
      exact h.final.1
  | token here there _ kind =>
      rw [here, there]
      exact kind
  | feed here there kind kind' =>
      rw [here, there]
      exact kind'.trans kind.symm

theorem peek_text (h : InStep s t) (other : s.peek.kind ≠ .newline) :
    t.peek.text = s.peek.text := by
  rw [State.peek] at other
  rw [State.peek, State.peek]
  cases h.next with
  | ended here there =>
      rw [here, there]
      exact h.final.2
  | token here there _ _ text =>
      rw [here, there]
      exact text
  | feed here _ kind =>
      rw [here] at other
      exact absurd kind other

/-- Both parsers name the token ahead alike. -/
theorem describe (h : InStep s t) : t.peek.describe = s.peek.describe := by
  by_cases feed : s.peek.kind = .newline
  · rw [Token.describe, Token.describe, h.peek_kind, feed]
  · rw [Token.describe, Token.describe, h.peek_kind, h.peek_text feed]

theorem check (h : InStep s t) (kind : Kind) : t.check kind = s.check kind := by
  rw [State.check, State.check, h.peek_kind]

theorem atEnd (h : InStep s t) : t.atEnd = s.atEnd := by
  rw [State.atEnd, State.atEnd]
  cases h.next with
  | ended here there => rw [here, there]
  | token here there =>
      rw [here, there]
      rfl
  | feed here there =>
      rw [here, there]
      rfl

theorem skipNewlines (h : Lagging s t) : InStep s.skipNewlines t.skipNewlines := by
  obtain ⟨extra, rest, ahead, feeds, padded⟩ := h.ahead
  refine h.walk s.walk_skipNewlines t.walk_skipNewlines ?_ ?_
  · rw [State.skipNewlines_ahead, State.skipNewlines_ahead, ahead, Token.dropWhile_feeds feeds]
    exact padded.dropFeeds
  · rw [State.skipNewlines_depth, State.skipNewlines_depth, h.depth]

theorem atFunction (h : InStep s t) : t.atFunction = s.atFunction := by
  rw [State.atFunction, State.atFunction]
  have whole := h.ahead.headsDeclaration
  cases h.next with
  | ended here there => rw [here, there]
  | token here there _ kind _ rest =>
      rw [here, there] at whole ⊢
      dsimp only
      rw [kind]
      split
      · exact rest.headsDeclaration
      · exact whole
  | feed here there kind kind' =>
      rw [here, there] at whole ⊢
      dsimp only
      rw [kind, kind']
      exact whole

/-- Behind one token more, the second parser stands perhaps before line breaks. -/
theorem advance_lagging (h : InStep s t) : Lagging s.advance t.advance := by
  refine h.walk s.walk_advance t.walk_advance ?_
    (by rw [State.advance_depth, State.advance_depth, h.depth])
  cases h.next with
  | ended here there =>
      rw [State.advance_of_nil here, State.advance_of_nil there]
      exact h.ahead.late
  | token here there _ _ _ rest =>
      rw [State.advance_of_cons here, State.advance_of_cons there]
      exact rest.late
  | feed here there _ _ rest =>
      rw [State.advance_of_cons here, State.advance_of_cons there]
      exact rest

theorem advance (h : InStep s t) (other : s.peek.kind ≠ .newline) : InStep s.advance t.advance := by
  refine h.walk s.walk_advance t.walk_advance ?_
    (by rw [State.advance_depth, State.advance_depth, h.depth])
  cases h.next with
  | ended here there =>
      rw [State.advance_of_nil here, State.advance_of_nil there]
      exact h.ahead
  | token here there _ _ _ rest =>
      rw [State.advance_of_cons here, State.advance_of_cons there]
      exact rest
  | feed here _ kind =>
      rw [State.peek, here] at other
      exact absurd kind other

theorem lineText (h : InStep s t) : t.lineText = s.lineText := h.ahead.lineText

/-- Both parsers consume the same rest of a line. -/
theorem skipLine (h : InStep s t) : InStep s.skipLine t.skipLine := by
  have line : ∀ {ts us : List Token}, Padded s.source t.source ts us → ∀ {s' t' : State},
      InStep s' t' → s'.ahead = ts →
      t'.ahead = us → InStep ((ts.takeWhile (·.kind != .newline)).foldl (fun s _ => s.advance) s')
        ((us.takeWhile (·.kind != .newline)).foldl (fun s _ => s.advance) t') := by
    intro ts us padded
    induction padded with
    | done => exact fun together _ _ => together
    | @token a b ts us other kind _ _ _ ih =>
        intro s' t' together here there
        rw [List.takeWhile_cons_of_pos (by simpa using other),
          List.takeWhile_cons_of_pos (by simpa [kind] using other)]
        refine ih (together.advance ?_) ?_ ?_
        · rw [State.peek, here]
          exact other
        · change s'.advance.ahead = ts
          rw [State.advance_of_cons here]
        · change t'.advance.ahead = us
          rw [State.advance_of_cons there]
    | feed kind kind' =>
        intro s' t' together _ _
        rw [List.takeWhile_cons_of_neg (by simpa using kind),
          List.takeWhile_cons_of_neg (by simpa using kind')]
        exact together
  exact line h.ahead h rfl rfl

theorem begin (h : InStep s t) : InStep s.begin t.begin :=
  ⟨h.ahead, h.depth, h.closed, h.final, h.skipped⟩

/-- Recovery stops at the same token; if it stops behind a line break, the second parser stands
perhaps before further ones. -/
theorem synchronize (h : InStep s t) : Lagging s.synchronize t.synchronize := by
  induction size : s.ahead.length generalizing s t with
  | zero =>
      have here := List.length_eq_zero_iff.mp size
      cases h.next with
      | ended _ there =>
          rw [State.synchronize, State.synchronize, State.advance_of_nil here,
            State.advance_of_nil there, here, there]
          exact h.lagging
      | token here' => cases here.symm.trans here'
      | feed here' => cases here.symm.trans here'
  | succ n ih =>
      cases h.next with
      | ended here =>
          rw [here] at size
          cases size
      | @token a b ts us here there other kind _ rest =>
          have resumes : us.head?.any (·.kind.resumes) = ts.head?.any (·.kind.resumes) := by
            have head := congrArg (Option.any Kind.resumes) rest.head_kind
            simpa only [Option.any_map] using head
          rw [State.synchronize_of_cons here, State.synchronize_of_cons there, kind, resumes]
          split
          · exact h.advance_lagging
          · refine ih (h.advance ?_) ?_
            · rw [State.peek, here]
              exact other
            · rw [State.advance_of_cons here]
              rw [here] at size
              exact Nat.succ.inj size
      | feed here there kind kind' =>
          rw [State.synchronize_of_cons here, State.synchronize_of_cons there, if_pos (.inl kind),
            if_pos (.inl kind')]
          exact h.advance_lagging

/-- Recovery notes the same message. -/
theorem recover (h : InStep s t) (first first' : Token) {e e' : ParseError}
    (message : e'.message = e.message) : Lagging (s.recover first e) (t.recover first' e') := by
  have reached := h.synchronize
  refine ⟨reached.ahead, reached.depth, reached.closed, reached.final, ?_⟩
  exact congrArg₂ List.cons message reached.skipped

end InStep

end Parser

end ScriptLens
