import ScriptLens.Proofs.Scan.Tiling
import Mathlib.Data.List.Pairwise

/-!
A tiling seen through byte offsets: tokens in order and apart, blanks in the gaps, every offset a
character boundary, and every text but a hotkey's cut out of the script at its offsets.
-/

namespace ScriptLens

/-- Only blanks stand between an offset and the first token, between tokens, and behind the last
one. -/
def Spaced (text : List Char) : Nat → List Token → Prop
  | offset, [] => ∃ gap, Text.slice? text offset (Text.byteLength text) = some gap ∧
      ∀ c ∈ gap, isBlank c = true
  | offset, t :: tokens => (∃ gap, Text.slice? text offset t.start.offset = some gap ∧
      ∀ c ∈ gap, isBlank c = true) ∧ Spaced text t.stop.offset tokens

/-- The tokens share out a script. -/
structure Partition (source : String) (tokens : List Token) : Prop where
  ordered : tokens.Pairwise fun a b => a.stop.offset ≤ b.start.offset
  spaced : Spaced source.toList 0 tokens
  boundaries : ∀ t ∈ tokens, Text.IsBoundary source.toList t.start.offset ∧
    Text.IsBoundary source.toList t.stop.offset
  ended : ∃ front last, tokens = front ++ [last] ∧ last.kind = .eof ∧
    last.start.offset = source.utf8ByteSize ∧ last.stop.offset = source.utf8ByteSize ∧
    ∀ t ∈ front, t.kind ≠ .eof
  nonempty : ∀ t ∈ tokens, t.kind ≠ .eof → t.start.offset < t.stop.offset
  texts : ∀ t ∈ tokens, t.kind ≠ .hotkey →
    Text.slice? source.toList t.start.offset t.stop.offset = some t.text.toList

namespace Token.Covers

variable {t : Token} {p : Position} {body : List Char}

theorem start_lt_stop (h : t.Covers p body) : t.start.offset < t.stop.offset := by
  have positive := Text.byteLength_pos h.nonempty
  rw [h.start, h.stop, Position.after_offset]
  omega

theorem slice? (h : t.Covers p body) {before behind : List Char}
    (place : p.offset = Text.byteLength before) :
    Text.slice? (before ++ (body ++ behind)) t.start.offset t.stop.offset = some body := by
  rw [h.start, h.stop, Position.after_offset, place, Text.slice?_append]

end Token.Covers

/-- Of two members of a list in order one comes before the other. -/
theorem either_of_pairwise {α : Type} {before : α → α → Prop} {items : List α}
    (order : items.Pairwise before) {a b : α}
    (first : a ∈ items) (second : b ∈ items) (different : a ≠ b) : before a b ∨ before b a := by
  have symmetric : Std.Symm fun a b => before a b ∨ before b a := ⟨fun _ _ => Or.symm⟩
  have either : items.Pairwise fun a b => before a b ∨ before b a := order.imp Or.inl
  exact either.forall first second different

namespace Tiled

variable {p : Position} {text : List Char} {tokens : List Token}

/-- Every tile has a place in the text. -/
theorem place (h : Tiled p text tokens) {t : Token} (member : t ∈ tokens) :
    ∃ before body behind, text = before ++ (body ++ behind) ∧ t.Covers (p.after before) body := by
  induction h with
  | blank hgap => cases member
  | @token p gap body rest u tokens hgap covers tail ih =>
      rcases List.mem_cons.mp member with rfl | later
      · exact ⟨gap, body, rest, rfl, covers⟩
      · obtain ⟨before, body', behind, whole, covers'⟩ := ih later
        refine ⟨gap ++ (body ++ before), body', behind, by simp [whole], ?_⟩
        rw [Position.after_append, Position.after_append, ← covers.stop]
        exact covers'

theorem start_le (h : Tiled p text tokens) {t : Token} (member : t ∈ tokens) :
    p.offset ≤ t.start.offset := by
  obtain ⟨before, body, behind, whole, covers⟩ := h.place member
  rw [covers.start, Position.after_offset]
  omega

theorem stop_le (h : Tiled p text tokens) {t : Token} (member : t ∈ tokens) :
    t.stop.offset ≤ (p.after text).offset := by
  obtain ⟨before, body, behind, rfl, covers⟩ := h.place member
  rw [covers.stop]
  simp only [Position.after_offset, Text.byteLength_append]
  omega

theorem ordered (h : Tiled p text tokens) :
    tokens.Pairwise fun a b => a.stop.offset ≤ b.start.offset := by
  induction h with
  | blank hgap => exact .nil
  | token hgap covers tail ih => exact .cons (fun b member => tail.start_le member) ih

/-- The gaps of a tiling, closed by a token at its end, hold blanks only. -/
theorem spaced (h : Tiled p text tokens) {before : List Char}
    (hp : p.offset = Text.byteLength before)
    {last : Token} (hstart : last.start = p.after text) (hstop : last.stop = p.after text) :
    Spaced (before ++ text) p.offset (tokens ++ [last]) := by
  induction h generalizing before with
  | @blank p gap hgap =>
      refine ⟨⟨gap, ?_, hgap⟩, [], ?_, by simp⟩
      · have cut := Text.slice?_append before gap []
        rw [hstart, Position.after_offset, hp]
        simpa using cut
      · have cut := Text.slice?_append (before ++ gap) [] []
        rw [hstop, Position.after_offset, hp]
        simpa using cut
  | @token p gap body rest t tokens hgap covers tail ih =>
      refine ⟨⟨gap, ?_, hgap⟩, ?_⟩
      · rw [covers.start, Position.after_offset, hp]
        exact Text.slice?_append before gap _
      · have stop : t.stop.offset = Text.byteLength (before ++ (gap ++ body)) := by
          rw [covers.stop]
          simp only [Position.after_offset, Text.byteLength_append, hp, Nat.add_assoc]
        have place : p.after (gap ++ (body ++ rest)) = t.stop.after rest := by
          rw [Position.after_append, Position.after_append, covers.stop]
        have tail := ih stop (place ▸ hstart) (place ▸ hstop)
        simp only [List.append_assoc] at tail
        exact tail

theorem partition {source : String} (h : Tiled .start source.toList tokens) :
    Partition source (tokens ++ [⟨.eof, "", Position.start.after source.toList,
      Position.start.after source.toList⟩]) := by
  have length : (Position.start.after source.toList).offset = source.utf8ByteSize := by
    rw [Position.after_offset, Position.start_offset, Nat.zero_add, Text.byteLength_toList]
  have whole : Text.byteLength source.toList = source.utf8ByteSize := Text.byteLength_toList source
  refine ⟨?_, ?_, ?_, ?_, ?_, ?_⟩
  · rw [List.pairwise_append]
    refine ⟨h.ordered, List.pairwise_singleton _ _, ?_⟩
    intro a ha b hb
    rw [List.mem_singleton.mp hb]
    exact h.stop_le ha
  · exact h.spaced (show Position.start.offset = Text.byteLength [] from rfl) rfl rfl
  · intro t member
    rcases List.mem_append.mp member with inside | last
    · obtain ⟨before, body, behind, text, covers⟩ := h.place inside
      rw [covers.start, covers.stop, text]
      constructor
      · simpa using Text.isBoundary_append before (body ++ behind)
      · simpa using Text.isBoundary_append (before ++ body) behind
    · rw [List.mem_singleton.mp last]
      have edge := Text.isBoundary_append source.toList []
      rw [List.append_nil, whole, ← length] at edge
      exact ⟨edge, edge⟩
  · refine ⟨tokens, _, rfl, rfl, length, length, ?_⟩
    intro t member
    obtain ⟨before, body, behind, text, covers⟩ := h.place member
    exact covers.kind
  · intro t member other
    rcases List.mem_append.mp member with inside | last
    · obtain ⟨before, body, behind, text, covers⟩ := h.place inside
      exact covers.start_lt_stop
    · rw [List.mem_singleton.mp last] at other
      exact absurd rfl other
  · intro t member other
    rcases List.mem_append.mp member with inside | last
    · obtain ⟨before, body, behind, text, covers⟩ := h.place inside
      rw [covers.text other, text, String.toList_ofList]
      exact covers.slice? (by simp)
    · rw [List.mem_singleton.mp last]
      have cut := Text.slice?_append source.toList [] []
      simpa using cut

end Tiled

/-- The tokens of a script without a fault partition it. -/
theorem partition_of_fault_none {source : String} (h : (scan source).fault = none) :
    Partition source (scan source).tokens := by
  have holds := Scanner.initial_holds.run source.toList h
  rw [List.nil_append] at holds
  have tiles := holds.tiled.partition
  rw [← holds.here] at tiles
  exact tiles

end ScriptLens
