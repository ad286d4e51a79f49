import ScriptLens.Token.Lexeme

/-!
Which shapes reading gives to which texts: a blank is one blank character, a colon pair is `::`, and
no lexeme is the end mark.
-/

namespace ScriptLens

namespace Kind

theorem keyword?_isKeyword {word : String} {k : Kind} (h : keyword? word = some k) :
    k.isKeyword = true := by
  unfold keyword? at h
  split at h <;> cases h <;> rfl

/-- Kinds of words, and of all other tokens but line breaks, comments and the symbols that one
character decides. -/
def isSpelled (k : Kind) : Bool :=
  k.isKeyword || k ∈ [modulo, builtinVar, identifier, directive, string, number, power, multiply,
    regexMatch, lessEqual, less, greaterEqual, greater, notEquals, regexNotMatch, assign, colon]

theorem ofWord_isSpelled (word : List Char) : (ofWord word).isSpelled = true := by
  unfold ofWord
  dsimp only
  split
  · rfl
  · split
    · next found => rw [isSpelled, keyword?_isKeyword found, Bool.true_or]
    · split <;> rfl

theorem ofWord_ne_eof (word : List Char) : ofWord word ≠ eof := by
  intro same
  have spelled := ofWord_isSpelled word
  rw [same] at spelled
  cases spelled

end Kind

namespace Lexeme

theorem readString_shape (rest : List Char) :
    ((readString rest).shape = .unclosed ∧ (readString rest).rest = []) ∨
      (readString rest).shape = .token .string := by
  unfold readString
  split
  · exact .inl ⟨rfl, rfl⟩
  · exact .inr rfl

theorem readNumber_shape (digit : Char) (rest : List Char) :
    (readNumber digit rest).shape = .token .number := by
  unfold readNumber
  dsimp only
  repeat' split
  all_goals rfl

theorem pairOr_shape (first second : Char) (two one : Kind) (rest : List Char) :
    (pairOr first second two one rest).shape = .token two ∨
      (pairOr first second two one rest).shape = .token one := by
  unfold pairOr
  split
  · split
    · exact .inl rfl
    · exact .inr rfl
  · exact .inr rfl

theorem symbolKind_ne_eof (c : Char) : symbolKind c ≠ .eof := by
  unfold symbolKind
  split <;> decide

/-- A symbol is a token, never the end mark, or the colon pair. -/
theorem readSymbol_shape (c : Char) (rest : List Char) :
    (∃ k, (readSymbol c rest).shape = .token k ∧ k ≠ .eof) ∨
      ((readSymbol c rest).shape = .colonPair ∧ (readSymbol c rest).text = [':', ':']) := by
  have pair : ∀ (first second : Char) (two one : Kind), two ≠ .eof → one ≠ .eof →
      ∃ k, (pairOr first second two one rest).shape = .token k ∧ k ≠ .eof := by
    intro first second two one h2 h1
    rcases pairOr_shape first second two one rest with h | h
    · exact ⟨two, h, h2⟩
    · exact ⟨one, h, h1⟩
  unfold readSymbol
  split
  · exact .inl (pair _ _ _ _ (by decide) (by decide))
  · exact .inl (pair _ _ _ _ (by decide) (by decide))
  · exact .inl (pair _ _ _ _ (by decide) (by decide))
  · exact .inl (pair _ _ _ _ (by decide) (by decide))
  · split <;> exact .inl ⟨_, rfl, by decide⟩
  · split
    · exact .inl ⟨_, rfl, by decide⟩
    · exact .inr ⟨rfl, rfl⟩
    · exact .inl ⟨_, rfl, by decide⟩
  · exact .inl ⟨_, rfl, symbolKind_ne_eof _⟩

/-- What reading can give: a blank character, a token other than the end mark, a colon pair, or a
string that never closes and takes all that is left. -/
theorem read_cases (c : Char) (rest : List Char) :
    ((read c rest).shape = .blank ∧ (read c rest).text = [c] ∧ isBlank c = true) ∨
      (∃ k, (read c rest).shape = .token k ∧ k ≠ .eof) ∨
      ((read c rest).shape = .colonPair ∧ (read c rest).text = [':', ':']) ∨
      ((read c rest).shape = .unclosed ∧ (read c rest).rest = []) := by
  unfold read
  split
  · next h => exact .inl ⟨rfl, rfl, h⟩
  split
  · exact .inr (.inl ⟨_, rfl, by decide⟩)
  split
  · exact .inr (.inl ⟨_, rfl, by decide⟩)
  split
  · exact .inr (.inl ⟨_, rfl, by decide⟩)
  split
  · rcases readString_shape rest with h | h
    · exact .inr (.inr (.inr h))
    · exact .inr (.inl ⟨_, h, by decide⟩)
  split
  · exact .inr (.inl ⟨_, readNumber_shape c rest, by decide⟩)
  split
  · exact .inr (.inl ⟨_, rfl, Kind.ofWord_ne_eof _⟩)
  · rcases readSymbol_shape c rest with h | h
    · exact .inr (.inl h)
    · exact .inr (.inr (.inl h))

/-- A symbol that is a token is one by its first character, or of a kind that takes more than
that. -/
theorem readSymbol_token {c : Char} {rest : List Char} {k : Kind}
    (shape : (readSymbol c rest).shape = .token k) : k.isSpelled = true ∨ k = symbolKind c := by
  have pair (first second : Char) (two one : Kind) (h2 : two.isSpelled = true)
      (h1 : one.isSpelled = true) (shape : (pairOr first second two one rest).shape = .token k) :
      k.isSpelled = true ∨ k = symbolKind c := by
    rcases pairOr_shape first second two one rest with h | h <;> cases h.symm.trans shape
    · exact .inl h2
    · exact .inl h1
  unfold readSymbol at shape
  split at shape
  · exact pair _ _ _ _ rfl rfl shape
  · exact pair _ _ _ _ rfl rfl shape
  · exact pair _ _ _ _ rfl rfl shape
  · exact pair _ _ _ _ rfl rfl shape
  · split at shape <;> cases shape <;> exact .inl rfl
  · split at shape <;> cases shape <;> exact .inl rfl
  · exact .inr (Shape.token.inj shape).symm

/-- What kinds of tokens there are, by the first character of each. -/
theorem read_token {c : Char} {rest : List Char} {k : Kind}
    (shape : (read c rest).shape = .token k) :
    c = '\n' ∧ k = .newline ∨ c = ';' ∧ k = .comment ∨ k.isSpelled = true ∨ k = symbolKind c := by
  unfold read at shape
  split at shape
  · cases shape
  split at shape
  · next feed =>
      cases shape
      exact .inl ⟨feed, rfl⟩
  split at shape
  · next semicolon =>
      cases shape
      exact .inr (.inl ⟨semicolon, rfl⟩)
  refine .inr (.inr ?_)
  split at shape
  · cases shape
    exact .inl rfl
  split at shape
  · rcases readString_shape rest with ⟨h, _⟩ | h <;> cases h.symm.trans shape
    exact .inl rfl
  split at shape
  · cases (readNumber_shape c rest).symm.trans shape
    exact .inl rfl
  split at shape
  · exact .inl (Shape.token.inj shape ▸ Kind.ofWord_isSpelled _)
  · exact readSymbol_token shape

theorem isDigit_of_isWordStart {c : Char} (h : isWordStart c = true) : c.isDigit = false := by
  have letter : (decide ('A'.val ≤ c.val ∧ c.val ≤ 'Z'.val) ||
    (decide ('a'.val ≤ c.val) && decide (c.val ≤ 'z'.val)) ||
      decide (c = '_')) = true := h
  simp only [Bool.or_eq_true, Bool.and_eq_true, decide_eq_true_eq, UInt32.le_iff_toNat_le] at letter
  simp only [Char.isDigit, Bool.and_eq_false_iff, decide_eq_false_iff_not, UInt32.le_iff_toNat_le]
  rcases letter with (upper | lower) | rfl
  · right
    simp at *
    omega
  · right
    simp at *
    omega
  · decide

/-- A text that starts like a word starts with a word. -/
theorem read_of_isWordStart {c : Char} (hc : isWordStart c = true) (rest : List Char) :
    read c rest = run (fun text => .token (.ofWord text)) [c] isWordPart rest := by
  have hblank : ¬ isBlank c = true := by
    intro blank
    simp only [isBlank, Bool.or_eq_true, decide_eq_true_eq] at blank
    rcases blank with ((rfl | rfl) | rfl) | rfl <;> revert hc <;> decide
  have hdigit := isDigit_of_isWordStart hc
  have other : ∀ d, isWordStart d = false → c ≠ d := by
    rintro d hd rfl
    rw [hd] at hc
    cases hc
  unfold read
  rw [if_neg hblank, if_neg (other '\n' (by decide)), if_neg (other ';' (by decide)), if_neg
    (other '#' (by decide)), if_neg (other '"' (by decide)), if_neg (by simp [hdigit]), if_pos hc]

/-- The kind of a lexeme that starts like a word is decided by its text. -/
theorem read_word (c : Char) (rest : List Char)
    (h : (read c rest).text.head?.any isWordStart = true) :
    (read c rest).shape = .token (.ofWord (read c rest).text) := by
  have first : (read c rest).text.head? = some c := by
    have whole := read_append c rest
    cases text : (read c rest).text with
    | nil => exact absurd text (read_text_ne_nil c rest)
    | cons d tail =>
        rw [text] at whole
        exact congrArg some (List.cons.inj whole).1
  rw [first] at h
  rw [read_of_isWordStart h]
  rfl

end Lexeme

end ScriptLens
