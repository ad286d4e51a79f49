import ScriptLens.Proofs.Scan.Origins

/-!
Behind its first character a lexeme that is no string and no comment holds word characters and a few
symbols only. So a line break, a brace or a parenthesis of a script is a token of its own, or it
stands in a string, a comment or a hotkey.
-/

namespace ScriptLens

/-- Characters that a lexeme may hold behind its first one. -/
def isTail (c : Char) : Bool := isWordPart c || c ∈ ['.', '=', '~', '*', ':']

theorem isTail_of_isWordPart {c : Char} (h : isWordPart c = true) :
    isTail c = true := by simp [isTail, h]

theorem isTail_of_isDigit {c : Char} (h : c.isDigit = true) : isTail c = true :=
  isTail_of_isWordPart (by simp [isWordPart, Char.isAlphanum, h])

theorem isTail_of_isAlpha {c : Char} (h : c.isAlpha = true) : isTail c = true :=
  isTail_of_isWordPart (by simp [isWordPart, Char.isAlphanum, h])

theorem isTail_of_isHexDigit {c : Char} (h : isHexDigit c = true) : isTail c = true := by
  simp only [isHexDigit, Bool.or_eq_true, Bool.and_eq_true, decide_eq_true_eq] at h
  rcases h with (digit | ⟨first, last⟩) | ⟨first, last⟩
  · exact isTail_of_isDigit digit
  · have last' : c ≤ 'z' := Char.le_trans last (by decide)
    have small : c.isLower = true :=
      Bool.and_eq_true_iff.mpr ⟨decide_eq_true first, decide_eq_true last'⟩
    exact isTail_of_isAlpha (Bool.or_eq_true_iff.mpr (.inr small))
  · have last' : c ≤ 'Z' := Char.le_trans last (by decide)
    have capital : c.isUpper = true := decide_eq_true ⟨first, last'⟩
    exact isTail_of_isAlpha (Bool.or_eq_true_iff.mpr (.inl capital))

namespace Lexeme

/-- The lexeme is a character and a tail. -/
def Tailed (c : Char) (lexeme : Lexeme) : Prop :=
  ∃ tail, lexeme.text = c :: tail ∧ ∀ d ∈ tail, isTail d = true

theorem run_tailed (shape : List Char → Shape) (c : Char) {head : List Char} {cls : Char → Bool}
    (first : ∀ d ∈ head, isTail d = true) (inside : ∀ {d}, cls d = true → isTail d = true)
    (rest : List Char) : Tailed c (run shape (c :: head) cls rest) := by
  refine ⟨head ++ rest.takeWhile cls, rfl, ?_⟩
  intro d member
  rcases List.mem_append.mp member with inHead | inRest
  · exact first d inHead
  · exact inside (List.mem_takeWhile_imp inRest)

theorem readNumber_tailed (digit : Char) (rest : List Char) :
    Tailed digit (readNumber digit rest) := by
  have digits : ∀ d ∈ rest.takeWhile Char.isDigit, isTail d = true :=
    fun d member => isTail_of_isDigit (List.mem_takeWhile_imp member)
  unfold readNumber
  dsimp only
  split
  · next d after _ =>
      split
      · next fraction =>
          have whole : ∀ e ∈ rest.takeWhile Char.isDigit ++ ['.', d], isTail e = true := by
            intro e member
            rcases List.mem_append.mp member with inside | point
            · exact digits e inside
            · simp only [List.mem_cons, List.not_mem_nil, or_false] at point
              rcases point with rfl | rfl
              · rfl
              · exact isTail_of_isDigit fraction
          exact run_tailed _ digit whole isTail_of_isDigit after
      · exact ⟨_, rfl, digits⟩
  · split
    · next zero =>
        obtain ⟨rfl, _⟩ := List.cons.inj zero
        exact run_tailed _ '0' (List.all_eq_true.mp rfl) isTail_of_isHexDigit _
    · exact ⟨_, rfl, digits⟩
  · exact ⟨_, rfl, digits⟩

theorem pairOr_tailed (first : Char) {second : Char} (h : isTail second = true) (two one : Kind)
    (rest : List Char) : Tailed first (pairOr first second two one rest) := by
  unfold pairOr
  split
  · next c _ =>
      split
      · next same => exact ⟨[c], rfl, by simpa [same] using h⟩
      · exact ⟨[], rfl, by simp⟩
  · exact ⟨[], rfl, by simp⟩

theorem readSymbol_tailed (c : Char) (rest : List Char) : Tailed c (readSymbol c rest) := by
  unfold readSymbol
  split
  · exact pairOr_tailed _ rfl _ _ _
  · exact pairOr_tailed _ rfl _ _ _
  · exact pairOr_tailed _ rfl _ _ _
  · exact pairOr_tailed _ rfl _ _ _
  · split <;> exact ⟨_, rfl, List.all_eq_true.mp rfl⟩
  · split <;> exact ⟨_, rfl, List.all_eq_true.mp rfl⟩
  · exact ⟨[], rfl, by simp⟩

/-- Only strings and comments hold other characters behind the first one. -/
theorem read_tailed {c : Char} (comment : c ≠ ';') (quote : c ≠ '"') (rest : List Char) :
    Tailed c (read c rest) := by
  unfold read
  rw [if_neg comment, if_neg quote]
  split
  · exact ⟨[], rfl, by simp⟩
  split
  · exact ⟨[], rfl, by simp⟩
  split
  · exact run_tailed _ c (by simp) isTail_of_isWordPart rest
  split
  · exact readNumber_tailed c rest
  split
  · exact run_tailed _ c (by simp) isTail_of_isWordPart rest
  · exact readSymbol_tailed c rest

theorem read_quote {rest : List Char} (closed : (read '"' rest).shape ≠ .unclosed) :
    (read '"' rest).shape = .token .string ∧
      ∃ inner, (read '"' rest).text = '"' :: (inner ++ ['"']) ∧ '"' ∉ inner := by
  have same : read '"' rest = readString rest := rfl
  rw [same, readString] at closed ⊢
  cases found : rest.dropWhile (· != '"') with
  | nil =>
      rw [found] at closed
      exact absurd rfl closed
  | cons quote behind =>
      have ends : quote = '"' := Text.dropWhile_ne_stops (by rw [found]; exact rfl)
      refine ⟨rfl, rest.takeWhile (· != '"'), by rw [ends], ?_⟩
      intro member
      simpa using List.mem_takeWhile_imp member

theorem tailed_of_shape {c : Char} {rest : List Char} {k : Kind}
    (shape : (read c rest).shape = .token k)
    (other : k ∉ [.string, .comment]) : Tailed c (read c rest) := by
  simp only [List.mem_cons, List.not_mem_nil, or_false, not_or] at other
  apply read_tailed
  · rintro rfl
    exact other.2 (Shape.token.inj ((read_comment rest).1.symm.trans shape)).symm
  · rintro rfl
    have string := (read_quote (by rw [shape]; simp)).1
    exact other.1 (Shape.token.inj (string.symm.trans shape)).symm

end Lexeme

namespace Token.Reads

variable {t : Token} {body behind : List Char}

/-- Only strings and line breaks hold a line feed. -/
theorem line (h : t.Reads body behind) (string : t.kind ≠ .string) (newline : t.kind ≠ .newline) :
    '\n' ∉ body := by
  by_cases comment : t.kind = .comment
  · exact (h.comment comment).2.1
  cases h with
  | lexeme ahead read =>
      obtain ⟨tail, text, inside⟩ :=
        Lexeme.tailed_of_shape (congrArg Lexeme.shape read) (by simp [string, comment])
      rw [read] at text
      subst text
      intro member
      rcases List.mem_cons.mp member with rfl | later
      · exact newline (Token.Reads.lexeme ahead read).feed
      · exact absurd (inside _ later) (by decide)
  | hotkey _ strung => exact strung.free

end Token.Reads

end ScriptLens
