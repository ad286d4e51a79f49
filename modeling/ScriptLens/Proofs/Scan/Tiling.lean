import ScriptLens.Token.Scan
import ScriptLens.Proofs.Scan.Shape
import ScriptLens.Proofs.Text.Cut
import Mathlib.Data.List.TakeWhile

/-!
Tokens tile the text they were read from: blanks, a token, blanks, a token and so on. The scanner
keeps two tilings, of the text before the stretch and of the stretch, so that a hotkey replaces the
second one whole.
-/

namespace ScriptLens

/-- The token stands at `p` and covers `body`; only a hotkey may have a text of its own. -/
structure Token.Covers (t : Token) (p : Position) (body : List Char) : Prop where
  nonempty : body ≠ []
  start : t.start = p
  stop : t.stop = p.after body
  kind : t.kind ≠ .eof
  text : t.kind ≠ .hotkey → t.text = String.ofList body

/-- Blanks and tokens in turn make up a text that starts at a place. -/
inductive Tiled : Position → List Char → List Token → Prop
  | blank {p gap} : (∀ c ∈ gap, isBlank c = true) → Tiled p gap []
  | token {p gap body rest t tokens} : (∀ c ∈ gap, isBlank c = true) → t.Covers (p.after gap) body →
      Tiled t.stop rest tokens → Tiled p (gap ++ (body ++ rest)) (t :: tokens)

namespace Tiled

theorem single {p : Position} {body : List Char} {t : Token} (h : t.Covers p body) :
    Tiled p body [t] := by
  have nothing : ∀ c ∈ ([] : List Char), isBlank c = true := by simp
  simpa using Tiled.token nothing h (.blank nothing)

theorem blanks_append {p : Position} {gap rest : List Char} {tokens : List Token}
    (hgap : ∀ c ∈ gap, isBlank c = true) (h : Tiled (p.after gap) rest tokens) :
    Tiled p (gap ++ rest) tokens := by
  cases h with
  | blank hrest =>
      refine .blank ?_
      intro c member
      rcases List.mem_append.mp member with inGap | inRest
      · exact hgap c inGap
      · exact hrest c inRest
  | @token _ gap' body rest t tokens hgap' covers tail =>
      rw [← List.append_assoc]
      refine .token ?_ ?_ tail
      · intro c member
        rcases List.mem_append.mp member with first | second
        · exact hgap c first
        · exact hgap' c second
      · rw [Position.after_append]
        exact covers

theorem append {p : Position} {a b : List Char} {ts us : List Token} (ha : Tiled p a ts)
    (hb : Tiled (p.after a) b us) : Tiled p (a ++ b) (ts ++ us) := by
  induction ha with
  | blank hgap => exact blanks_append hgap hb
  | @token p gap body rest t tokens hgap covers tail ih =>
      have place : p.after (gap ++ (body ++ rest)) = t.stop.after rest := by
        rw [Position.after_append, Position.after_append, covers.stop]
      rw [place] at hb
      have whole := Tiled.token hgap covers (ih hb)
      simpa only [List.append_assoc, List.cons_append] using whole

end Tiled

namespace Scanner

/-- What the scanner holds after reading `text`: a tiling of what no hotkey can claim, one of the
stretch, and the place where it stands. -/
structure Holds (s : Scanner) (text : List Char) : Prop where
  parts : ∃ older, text = older ++ s.stretch.text.reverse ∧
    Tiled .start older s.settled.reverse ∧ s.stretch.start = Position.start.after older
  stretch : Tiled s.stretch.start s.stretch.text.reverse s.stretch.tokens.reverse
  here : s.here = Position.start.after text

theorem initial_holds : initial.Holds [] :=
  ⟨⟨[], rfl, .blank (by simp), rfl⟩, .blank (by simp [initial, Stretch.fresh]), rfl⟩

theorem Holds.stretch_after {s : Scanner} {text : List Char} (h : s.Holds text) :
    s.stretch.start.after s.stretch.text.reverse = s.here := by
  obtain ⟨older, whole, _, place⟩ := h.parts
  rw [place, h.here, whole, Position.after_append]

/-- All tokens held, in order, tile what was read. -/
theorem Holds.tiled {s : Scanner} {text : List Char} (h : s.Holds text) :
    Tiled .start text (s.stretch.tokens ++ s.settled).reverse := by
  obtain ⟨older, whole, settled, place⟩ := h.parts
  rw [whole, List.reverse_append]
  exact settled.append (place ▸ h.stretch)

theorem Holds.push {s : Scanner} {text : List Char} (h : s.Holds text) {kind : Kind}
    {body : List Char} (nonempty : body ≠ []) (hkind : kind ≠ .eof) :
    (s.push kind body).Holds (text ++ body) := by
  have covers : Token.Covers ⟨kind, String.ofList body, s.here, s.here.after body⟩ s.here body :=
    ⟨nonempty, rfl, rfl, hkind, fun _ => rfl⟩
  have place : s.here.after body = Position.start.after (text ++ body) := by
    rw [Position.after_append, ← h.here]
  unfold Scanner.push
  dsimp only
  split
  · refine ⟨⟨text ++ body, by simp [Stretch.fresh], ?_, place⟩,
      .blank (by simp [Stretch.fresh]), place⟩
    rw [List.reverse_cons]
    exact h.tiled.append (h.here ▸ .single covers)
  · obtain ⟨older, whole, settled, start⟩ := h.parts
    refine ⟨⟨older, by simp [whole], settled, start⟩, ?_, place⟩
    simp only [List.reverse_append, List.reverse_reverse, List.reverse_cons]
    refine h.stretch.append ?_
    rw [h.stretch_after]
    exact .single covers

/-- The hotkey of the stretch covers all of it but the blanks at its start. -/
theorem Holds.hotkey_covers {s : Scanner} {text : List Char} (h : s.Holds text) :
    (s.stretch.hotkey (s.here.after [':', ':'])).Covers
      (s.stretch.start.after (s.stretch.text.reverse.takeWhile isBlank))
      (s.stretch.text.reverse.dropWhile isBlank ++ [':', ':']) := by
  refine ⟨by simp, rfl, ?_, by simp [Stretch.hotkey], ?_⟩
  · rw [← Position.after_append, ← List.append_assoc, List.takeWhile_append_dropWhile,
      Position.after_append, h.stretch_after]
    rfl
  · intro other
    exact absurd rfl other

/-- The hotkey replaces every tile of the stretch. -/
theorem Holds.colonPair {s : Scanner} {text : List Char} (h : s.Holds text) (rest : List Char) :
    (s.take ⟨.colonPair, [':', ':'], rest⟩).Holds (text ++ [':', ':']) := by
  obtain ⟨older, whole, settled, start⟩ := h.parts
  have place : s.here.after [':', ':'] = Position.start.after (text ++ [':', ':']) := by
    rw [Position.after_append, ← h.here]
  refine ⟨⟨older, by simp [take, whole], settled, start⟩, ?_, place⟩
  have split : s.stretch.text.reverse ++ [':', ':'] =
      s.stretch.text.reverse.takeWhile isBlank ++
        ((s.stretch.text.reverse.dropWhile isBlank ++ [':', ':']) ++ []) := by
    rw [List.append_nil, ← List.append_assoc, List.takeWhile_append_dropWhile]
  have nothing : ∀ c ∈ ([] : List Char), isBlank c = true := by simp
  have tiles :=
    Tiled.token (fun c member => List.mem_takeWhile_imp member) h.hotkey_covers (.blank nothing)
  rw [← split] at tiles
  simpa [take] using tiles

/-- One lexeme more keeps the tilings. -/
theorem Holds.take {s : Scanner} {text : List Char} (h : s.Holds text) (c : Char) (rest : List Char)
    (closed : (Lexeme.read c rest).shape ≠ .unclosed) :
    (s.take (Lexeme.read c rest)).Holds (text ++ (Lexeme.read c rest).text) := by
  rcases Lexeme.read_cases c rest with
    ⟨shape, one, blank⟩ | ⟨k, shape, hk⟩ | ⟨shape, two⟩ | ⟨shape, _⟩
  · obtain ⟨older, whole, settled, start⟩ := h.parts
    simp only [Scanner.take, shape, one]
    refine ⟨⟨older, by simp [whole], settled, start⟩, ?_, ?_⟩
    · simp only [List.reverse_append, List.reverse_reverse]
      have single : ∀ d ∈ [c], isBlank d = true := by simpa using blank
      have tail := h.stretch.append (.blank single)
      simpa using tail
    · rw [Position.after_append, ← h.here]
  · simp only [Scanner.take, shape]
    exact h.push (Lexeme.read_text_ne_nil c rest) hk
  · have same := h.colonPair (Lexeme.read c rest).rest
    rw [← two, ← shape] at same
    exact same
  · exact absurd shape closed

theorem take_here (s : Scanner) (lexeme : Lexeme) :
    (s.take lexeme).here = s.here.after lexeme.text := by
  unfold Scanner.take
  split
  · unfold Scanner.push
    dsimp only
    split <;> rfl
  all_goals rfl

/-- A run ends behind the whole text, also where a string never closes. -/
theorem run_here (s : Scanner) (more : List Char) : (s.run more).1.here = s.here.after more := by
  fun_induction Scanner.run s more with
  | case1 s => rfl
  | case2 s c rest lexeme =>
      rename_i shape
      rcases Lexeme.read_cases c rest with ⟨other, _⟩ | ⟨k, other, _⟩ | ⟨other, _⟩ | ⟨_, nothing⟩
      · exact absurd (other.symm.trans shape) (by decide)
      · exact absurd (other.symm.trans shape) (by simp)
      · exact absurd (other.symm.trans shape) (by decide)
      · have whole := Lexeme.read_append c rest
        rw [nothing, List.append_nil] at whole
        rw [take_here, whole]
  | case3 s c rest lexeme shape =>
      rename_i ih
      rw [ih, take_here, ← Position.after_append, Lexeme.read_append]

/-- A run that closes every string has read the whole text. -/
theorem Holds.run {s : Scanner} {text : List Char} (h : s.Holds text) (more : List Char)
    (closed : (s.run more).2 = none) : (s.run more).1.Holds (text ++ more) := by
  fun_induction Scanner.run s more generalizing text with
  | case1 s => simpa using h
  | case2 s c rest shape => cases closed
  | case3 s c rest lexeme shape =>
      rename_i ih
      have whole : text ++ (c :: rest) =
          (text ++ (Lexeme.read c rest).text) ++ (Lexeme.read c rest).rest := by
        rw [List.append_assoc, Lexeme.read_append]
      rw [whole]
      exact ih (h.take c rest shape) closed

end Scanner

end ScriptLens
