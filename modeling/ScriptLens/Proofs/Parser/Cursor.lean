import ScriptLens.Proofs.Parser.Levels

/-!
What walks keep, and the parser's place seen as an index into the tokens. The index never leaves the
tokens, and the token at it, the token before it and the end of input are what the state says they
are.
-/

namespace ScriptLens.Parser

open Relation

variable {loud : Bool} {s t : State}

/-- What every step keeps, every walk keeps. -/
theorem Walk.keeps {P : State → Prop} (step : ∀ {s t}, Step loud s t → P s → P t)
    (h : Walk loud s t) (start : P s) : P t := by
  induction h with
  | refl => exact start
  | tail _ last ih => exact step last ih

theorem Walk.final (h : Walk loud s t) : t.final = s.final := by
  refine h.keeps (P := fun u => u.final = s.final) ?_ rfl
  intro u v step
  cases step <;> exact id

theorem Walk.source (h : Walk loud s t) : t.source = s.source := by
  refine h.keeps (P := fun u => u.source = s.source) ?_ rfl
  intro u v step
  cases step <;> exact id

theorem Walk.suffix (h : Walk loud s t) : t.ahead <:+ s.ahead := by
  refine h.keeps (P := fun u => u.ahead <:+ s.ahead) ?_ List.suffix_rfl
  intro u v step before
  cases step with
  | consume ahead => exact (List.suffix_cons _ _).trans (ahead ▸ before)
  | _ => exact before

theorem Walk.length_le (h : Walk loud s t) : t.ahead.length ≤ s.ahead.length := h.suffix.length_le

theorem Walk.depth_le (h : Walk loud s t) (limit : s.depth ≤ maxDepth) : t.depth ≤ maxDepth := by
  refine h.keeps (P := fun u => u.depth ≤ maxDepth) ?_ limit
  intro u v step before
  cases step with
  | deepen below => exact below
  | leave => exact Nat.le_trans (Nat.sub_le _ _) before
  | release below => exact Nat.le_trans below before
  | _ => exact before

theorem Walk.begun (h : Walk false s t) : t.begun = s.begun := by
  refine h.keeps (P := fun u => u.begun = s.begun) ?_ rfl
  intro u v step
  cases step <;> exact id

theorem Walk.skipped (h : Walk false s t) : t.skipped = s.skipped := by
  refine h.keeps (P := fun u => u.skipped = s.skipped) ?_ rfl
  intro u v step
  cases step <;> exact id

theorem Walk.skipped_le (h : Walk loud s t) : s.skipped.length ≤ t.skipped.length := by
  refine h.keeps (P := fun u => s.skipped.length ≤ u.skipped.length) ?_ (Nat.le_refl _)
  intro u v step before
  cases step with
  | drop => exact Nat.le_succ_of_le before
  | _ => exact before

/-- What was dropped stays noted. -/
theorem Walk.skipped_suffix (h : Walk loud s t) : s.skipped <:+ t.skipped := by
  refine h.keeps (P := fun u => s.skipped <:+ u.skipped) ?_ List.suffix_rfl
  intro u v step before
  cases step with
  | drop => exact before.trans (List.suffix_cons _ _)
  | _ => exact before

/-- The state stands at an index of the tokens, up to the first end mark. -/
structure Cursor (tokens : List Token) (pos : Nat) (s : State) : Prop where
  rest : ∃ behind, tokens.drop pos = s.ahead ++ s.final :: behind
  final : s.final.kind = .eof
  ahead : ∀ t ∈ s.ahead, t.kind ≠ .eof
  last : tokens[pos - 1]? = some s.last

namespace Cursor

variable {tokens : List Token} {pos : Nat}

theorem peek (h : Cursor tokens pos s) : tokens[pos]? = some s.peek := by
  obtain ⟨behind, rest⟩ := h.rest
  have head := congrArg List.head? rest
  rw [List.head?_drop] at head
  rw [head, State.peek]
  cases s.ahead <;> rfl

theorem atEnd_iff (h : Cursor tokens pos s) : s.atEnd = true ↔ s.peek.kind = .eof := by
  rw [State.atEnd, State.peek]
  cases ahead : s.ahead with
  | nil => simpa using h.final
  | cons t rest =>
      have other := h.ahead t (ahead ▸ List.mem_cons_self)
      simpa using other

theorem step (h : Cursor tokens pos s) (hs : Step loud s t) :
    Cursor tokens (pos + (s.ahead.length - t.ahead.length)) t := by
  cases hs with
  | @consume _ _ first rest ahead =>
      obtain ⟨behind, drop⟩ := h.rest
      have moved : s.ahead.length - rest.length = 1 := by
        rw [ahead, List.length_cons]
        omega
      rw [moved]
      refine ⟨⟨behind, ?_⟩, h.final, ?_, ?_⟩
      · rw [ahead] at drop
        rw [← List.drop_drop, drop]
        rfl
      · intro u member
        exact h.ahead u (ahead ▸ List.mem_cons_of_mem first member)
      · rw [Nat.add_sub_cancel, h.peek, State.peek, ahead]
        rfl
  | _ =>
      have still : Cursor tokens (pos + (s.ahead.length - s.ahead.length)) s := by
        rw [Nat.sub_self]
        exact h
      exact ⟨still.rest, still.final, still.ahead, still.last⟩

/-- The index moves on by the tokens consumed. -/
theorem walk (h : Cursor tokens pos s) (hs : Walk loud s t) :
    Cursor tokens (pos + (s.ahead.length - t.ahead.length)) t := by
  induction hs with
  | refl =>
      rw [Nat.sub_self]
      exact h
  | @tail u v before last ih =>
      have next := ih.step last
      have first := Walk.length_le before
      have second := Walk.length_le (ReflTransGen.single last)
      have sum : pos + (s.ahead.length - u.ahead.length) + (u.ahead.length - v.ahead.length) =
          pos + (s.ahead.length - v.ahead.length) := by omega
      rw [sum] at next
      exact next

end Cursor

namespace State

theorem prepare_getLast (tokens : List Token) :
    ∃ (front : List Token) (last : Token), prepare tokens = front ++ [last] ∧ last.kind = .eof := by
  unfold prepare
  dsimp only
  split
  · next t h =>
      split
      · next hk =>
          obtain ⟨front, whole⟩ := List.getLast?_eq_some_iff.mp h
          exact ⟨front, t, whole, hk⟩
      · exact ⟨_, fallbackEnd, rfl, rfl⟩
  · exact ⟨[], fallbackEnd, rfl, rfl⟩

/-- The parser starts at the first token. -/
theorem cursor_ofTokens (source : String) (tokens : List Token) :
    Cursor (prepare tokens) 0 (ofTokens source tokens) := by
  obtain ⟨front, last, kept, hlast⟩ := prepare_getLast tokens
  have inside : last ∈ prepare tokens := by
    rw [kept]
    exact List.mem_append_right front List.mem_cons_self
  have found : ((prepare tokens).find? (·.kind == .eof)).isSome := by
    rw [List.find?_isSome]
    exact ⟨last, inside, by simpa using hlast⟩
  obtain ⟨final, hfinal⟩ := Option.isSome_iff_exists.mp found
  obtain ⟨eof, before, behind, split, others⟩ := List.find?_eq_some_iff_append.mp hfinal
  have ahead : (prepare tokens).takeWhile (·.kind != .eof) = before := by
    rw [split, List.takeWhile_append_of_pos (by simpa using others),
      List.takeWhile_cons_of_neg (by simpa using eof), List.append_nil]
  have hofs : ofTokens source tokens =
      ⟨source.toList, before, final, (prepare tokens).headD final, 0, [], []⟩ := by
    rw [ofTokens, hfinal, ahead]
    rfl
  rw [hofs]
  refine ⟨⟨behind, split⟩, by simpa using eof, by simpa using others, ?_⟩
  rw [split]
  cases before <;> rfl

end State

end ScriptLens.Parser
