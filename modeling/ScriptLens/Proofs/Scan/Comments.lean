import ScriptLens.Proofs.Scan.Tails
import ScriptLens.Proofs.Spans.Script
import Mathlib.Data.List.Chain

/-!
What is lost without comments. A comment reaches to the end of its line, so only a line break comes
behind it; any other token keeps its neighbour when comments are left out.
-/

namespace ScriptLens

/-- Behind a comment only a line break comes. -/
def CommentsEnd (tokens : List Token) : Prop :=
  tokens.IsChain fun a b => a.kind = .comment → b.kind = .newline

theorem Tiled.commentsEnd {front text behind : List Char} {p : Position} {tokens : List Token}
    (tiled : Tiled p text tokens) (place : p = Position.start.after front)
    (origins : ∀ t ∈ tokens, t.Origin (front ++ (text ++ behind))) : CommentsEnd tokens := by
  induction tiled generalizing front with
  | blank hgap => exact .nil
  | @token p gap body rest t tokens hgap covers tail ih =>
      have whole : front ++ (gap ++ (body ++ rest) ++ behind) =
        (front ++ gap) ++ (body ++ (rest ++ behind)) := by simp
      rw [whole] at origins
      rw [place, ← Position.after_append] at covers
      have reads := (origins t List.mem_cons_self).reads covers
      have place' : t.stop = Position.start.after (front ++ (gap ++ body)) := by
        rw [covers.stop, ← Position.after_append, List.append_assoc]
      refine List.isChain_cons.mpr ⟨?_, ih place' ?_⟩
      · rintro u next comment
        obtain ⟨_, _, feed⟩ := reads.comment comment
        cases tail with
        | blank hgap' => cases next
        | @token _ gap' body' rest' _ tokens' hgap' covers' _ =>
            cases next
            cases gap' with
            | cons c gap' =>
                have blank := hgap' c List.mem_cons_self
                rw [feed c rfl] at blank
                cases blank
            | nil =>
                obtain ⟨c, body', rfl⟩ := List.exists_cons_of_ne_nil covers'.nonempty
                have first : c = '\n' := feed c rfl
                subst first
                have origin := origins u (by simp)
                have split : front ++ gap ++ (body ++ ([] ++ ('\n' :: body' ++ rest') ++ behind)) =
                    (front ++ (gap ++ body)) ++ ('\n' :: body' ++ (rest' ++ behind)) := by simp
                rw [split] at origin
                rw [place'] at covers'
                exact (origin.reads covers').feed
      · intro u member
        have origin := origins u (List.mem_cons_of_mem t member)
        simpa using origin

namespace Scanned

variable {source : String} {front : List Token} {last : Token}

theorem lineTokens_eq (h : Scanned source front last) : lineTokens source = front := by
  rw [lineTokens, (fault_of_tokenize h.tokens).2, List.dropLast_concat]

theorem origins (h : Scanned source front last) : ∀ t ∈ front, t.Origin source.toList :=
  h.lineTokens_eq ▸ lineTokens_origin source

theorem commentsEnd (h : Scanned source front last) : CommentsEnd front := by
  have origins : ∀ t ∈ front, t.Origin ([] ++ (source.toList ++ [])) := by simpa using h.origins
  exact h.tiled.commentsEnd rfl origins

end Scanned

namespace CommentsEnd

variable {tokens front after back : List Token} {s t : Token}

/-- A token that is no line break has no comment before it. -/
theorem before_ne (h : CommentsEnd tokens) (place : tokens = front ++ t :: back)
    (other : t.kind ≠ .newline) : ∀ u ∈ front.getLast?, u.kind ≠ .comment := by
  intro u last comment
  subst place
  obtain ⟨_, _, across⟩ := List.isChain_append.mp h
  exact other (across u last t rfl comment)

/-- A token that is no line break is found among all tokens with what stands around it and with the
same neighbour before it. -/
theorem place (h : CommentsEnd tokens)
    (kept : tokens.filter (·.kind != .comment) = front ++ t :: back)
    (other : t.kind ≠ .newline) : ∃ before after, tokens = before ++ t :: after ∧
      before.filter (·.kind != .comment) = front ∧ after.filter (·.kind != .comment) = back ∧
      before.getLast? = front.getLast? := by
  obtain ⟨first, second, rfl, hfront, found⟩ := List.filter_eq_append_iff.mp kept
  obtain ⟨comments, after, rfl, dropped, _, hback⟩ := List.filter_eq_cons_iff.mp found
  have apart := h.before_ne (List.append_assoc first comments (t :: after)).symm other
  have nothing : comments = [] := by
    cases final : comments.getLast? with
    | none => exact List.getLast?_eq_none_iff.mp final
    | some u =>
        have comment : u.kind = .comment := by simpa using dropped u (List.mem_of_getLast? final)
        exact absurd comment (apart u (by rw [List.getLast?_append, final]; rfl))
  subst nothing
  rw [List.append_nil] at apart
  refine ⟨first, after, rfl, hfront, hback, ?_⟩
  rw [← hfront]
  cases final : first.getLast? with
  | none =>
      rw [List.getLast?_eq_none_iff.mp final]
      rfl
  | some u =>
      have kind := apart u final
      obtain ⟨before, rfl⟩ := List.getLast?_eq_some_iff.mp final
      simp [List.filter_append, kind]

/-- A token that comes next without comments and is no line break comes next with them. -/
theorem next (h : CommentsEnd (front ++ s :: after))
    (kept : after.filter (·.kind != .comment) = t :: back) (other : t.kind ≠ .newline) :
    ∃ behind, after = t :: behind ∧ behind.filter (·.kind != .comment) = back := by
  rw [← List.singleton_append, ← List.append_assoc] at h
  rw [← List.nil_append (t :: back)] at kept
  obtain ⟨between, behind, rfl, _, dropped, nothing⟩ :=
    CommentsEnd.place h.right_of_append kept other
  cases List.getLast?_eq_none_iff.mp nothing
  exact ⟨behind, rfl, dropped⟩

/-- Tokens that follow one another without comments, none of them a line break, do so with them. -/
theorem row {ts : List Token} (h : CommentsEnd (front ++ s :: after))
    (kept : after.filter (·.kind != .comment) = ts ++ back) (others : ∀ t ∈ ts, t.kind ≠ .newline) :
    ∃ behind, after = ts ++ behind ∧ behind.filter (·.kind != .comment) = back := by
  induction ts generalizing front s after with
  | nil => exact ⟨after, rfl, kept⟩
  | cons t ts ih =>
      obtain ⟨first, later⟩ := List.forall_mem_cons.mp others
      obtain ⟨behind, rfl, kept'⟩ := h.next kept first
      rw [← List.singleton_append, ← List.append_assoc] at h
      obtain ⟨behind, rfl, dropped⟩ := ih h kept' later
      exact ⟨behind, rfl, dropped⟩

end CommentsEnd

end ScriptLens
