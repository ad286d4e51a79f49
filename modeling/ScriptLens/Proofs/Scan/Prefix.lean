import ScriptLens.Proofs.Scan.Local

/-!
Lexemes and where a text is cut. What stands behind the cut decides nothing about a lexeme that ends
before it, so the text up to the cut starts with the same lexeme.
-/

namespace ScriptLens

namespace Lexeme

section Class

variable {cls : Char → Bool} {front more : List Char}

theorem dropWhile_cut (ends : more.length ≤ ((front ++ more).dropWhile cls).length) :
    (front ++ more).dropWhile cls = front.dropWhile cls ++ more := by
  induction front with
  | nil => exact (List.dropWhile_suffix cls).eq_of_length_le ends
  | cons c front ih =>
      rw [List.cons_append, List.dropWhile_cons] at ends ⊢
      by_cases inside : cls c = true
      · rw [if_pos inside] at ends ⊢
        rw [ih ends, List.dropWhile_cons_of_pos inside]
      · rw [if_neg inside, List.dropWhile_cons_of_neg inside]
        rfl

theorem takeWhile_cut (ends : more.length ≤ ((front ++ more).dropWhile cls).length) :
    (front ++ more).takeWhile cls = front.takeWhile cls := by
  have whole : (front ++ more).takeWhile cls ++ (front ++ more).dropWhile cls =
      front.takeWhile cls ++ (front.dropWhile cls ++ more) := by
    rw [List.takeWhile_append_dropWhile, ← List.append_assoc, List.takeWhile_append_dropWhile]
  rw [dropWhile_cut ends] at whole
  exact List.append_cancel_right whole

theorem run_cut (shape : List Char → Shape) (head : List Char)
    (ends : more.length ≤ (run shape head cls (front ++ more)).rest.length) :
    run shape head cls (front ++ more) = (run shape head cls front).before more := by
  rw [run, dropWhile_cut ends, takeWhile_cut ends]
  rfl

end Class

variable {front more : List Char}

theorem readString_unclosed (h : (readString front).shape = .unclosed) :
    front.dropWhile (· != '"') = [] := by
  unfold readString at h
  split at h
  · assumption
  · cases h

theorem readString_cut (ends : more.length ≤ (readString (front ++ more)).rest.length) :
    readString (front ++ more) = (readString front).before more := by
  by_cases opened : (readString front).shape = .unclosed
  · have behind : (front ++ more).dropWhile (· != '"') = more.dropWhile (· != '"') := by
      rw [List.dropWhile_append, readString_unclosed opened]
      rfl
    have shorter := List.length_dropWhile_le (· != '"') more
    cases found : more.dropWhile (· != '"') with
    | nil =>
        rw [readString, behind, found] at ends
        have nothing : more = [] := List.length_eq_zero_iff.mp (Nat.le_zero.mp ends)
        subst nothing
        simp [before]
    | cons quote after =>
        rw [readString, behind, found] at ends
        rw [found, List.length_cons] at shorter
        exact absurd ends (Nat.not_le.mpr shorter)
  · exact readString_append_of_closed opened more

theorem readNumber_rest_le (digit : Char) (rest : List Char) :
    (readNumber digit rest).rest.length ≤ (rest.dropWhile Char.isDigit).length := by
  unfold readNumber
  dsimp only
  split
  · next d after found =>
      rw [found]
      split
      · have shorter := List.length_dropWhile_le Char.isDigit after
        simp only [run, List.length_cons]
        omega
      · exact Nat.le_refl _
  · next after found =>
      rw [found]
      split
      · have shorter := List.length_dropWhile_le isHexDigit after
        simp only [run, List.length_cons]
        omega
      · exact Nat.le_refl _
  · exact Nat.le_refl _

theorem readNumber_cut (digit : Char)
    (ends : more.length ≤ (readNumber digit (front ++ more)).rest.length) :
    readNumber digit (front ++ more) = (readNumber digit front).before more := by
  have le := ends.trans (readNumber_rest_le digit (front ++ more))
  unfold readNumber at ends ⊢
  simp only [dropWhile_cut le, takeWhile_cut le] at ends ⊢
  generalize front.dropWhile Char.isDigit = behind at ends ⊢
  -- a fraction or a radix that the text behind the cut opens would take some of that text
  cases behind with
  | nil =>
      rw [List.nil_append] at ends ⊢
      split at ends
      · next d after =>
          split at ends
          · have shorter := List.length_dropWhile_le Char.isDigit after
            simp only [run, List.length_cons] at ends
            omega
          · next other => simp [other]
      · next after =>
          split at ends
          · have shorter := List.length_dropWhile_le isHexDigit after
            simp only [run, List.length_cons] at ends
            omega
          · next other => simp [other]
      · simp
  | cons a after =>
      by_cases isPoint : a = '.'
      · subst isPoint
        cases after with
        | nil =>
            cases more with
            | nil => rfl
            | cons d later =>
                simp only [List.cons_append, List.nil_append] at ends ⊢
                split at ends
                · have shorter := List.length_dropWhile_le Char.isDigit later
                  simp only [run, List.length_cons] at ends
                  omega
                · next other => simp [other]
        | cons d after =>
            simp only [List.cons_append] at ends ⊢
            split
            · next inside =>
                rw [if_pos inside] at ends
                exact run_cut _ _ ends
            · rfl
      · by_cases isMark : a = 'x'
        · subst isMark
          simp only [List.cons_append] at ends ⊢
          split
          · next zero =>
              rw [if_pos zero] at ends
              exact run_cut _ _ ends
          · rfl
        · simp [isPoint, isMark]

theorem pairOr_cut (first second : Char) (two one : Kind)
    (ends : more.length ≤ (pairOr first second two one (front ++ more)).rest.length) :
    pairOr first second two one (front ++ more) =
    (pairOr first second two one front).before more := by
  cases front with
  | nil =>
      cases more with
      | nil => rfl
      | cons c later =>
          rw [List.nil_append, pairOr] at ends ⊢
          split at ends
          · exact absurd ends (Nat.not_succ_le_self _)
          · next other => simp [pairOr, other]
  | cons c front =>
      simp only [List.cons_append, pairOr]
      split <;> rfl

theorem readSymbol_cut (c : Char)
    (ends : more.length ≤ (readSymbol c (front ++ more)).rest.length) :
    readSymbol c (front ++ more) = (readSymbol c front).before more := by
  unfold readSymbol at ends ⊢
  split at ends
  · exact pairOr_cut _ _ _ _ ends
  · exact pairOr_cut _ _ _ _ ends
  · exact pairOr_cut _ _ _ _ ends
  · exact pairOr_cut _ _ _ _ ends
  · cases front with
    | nil =>
        rw [List.nil_append] at ends ⊢
        split at ends
        · exact absurd ends (Nat.not_succ_le_self _)
        · exact absurd ends (Nat.not_succ_le_self _)
        · simp_all
    | cons d front =>
        by_cases first : d = '='
        · simp [first]
        by_cases second : d = '~'
        · simp [second]
        · simp [first, second]
  · cases front with
    | nil =>
        rw [List.nil_append] at ends ⊢
        split at ends
        · exact absurd ends (Nat.not_succ_le_self _)
        · exact absurd ends (Nat.not_succ_le_self _)
        · simp_all
    | cons d front =>
        by_cases first : d = '='
        · simp [first]
        by_cases second : d = ':'
        · simp [second]
        · simp [first, second]
  · simp_all

/-- A lexeme that ends before a cut is the lexeme of the text up to the cut. -/
theorem read_cut {c : Char} (ends : more.length ≤ (read c (front ++ more)).rest.length) :
    read c (front ++ more) = (read c front).before more := by
  unfold read at ends ⊢
  split
  · rfl
  split
  · rfl
  split
  · simp_all only [if_false, if_true]
    exact run_cut _ _ ends
  split
  · simp_all only [if_false, if_true]
    exact run_cut _ _ ends
  split
  · simp_all only [if_false, if_true]
    exact readString_cut ends
  split
  · simp_all only [if_false, if_true]
    exact readNumber_cut c ends
  split
  · simp_all only [if_false, if_true]
    exact run_cut _ _ ends
  · simp_all only [if_false]
    exact readSymbol_cut c ends

end Lexeme

@[simp] theorem Scanner.run_nil (s : Scanner) : s.run [] = (s, none) := by rw [run]

/-- Over a text that is cut behind a lexeme, the scanner takes this lexeme first. -/
theorem Scanner.run_cut {s : Scanner} {c : Char} {rest front more : List Char}
    (closed : (Lexeme.read c rest).shape ≠ .unclosed)
    (ends : (Lexeme.read c rest).rest = front ++ more) :
    s.run ((Lexeme.read c rest).text ++ front) = (s.take (Lexeme.read c rest)).run front := by
  have whole := Lexeme.read_append c rest
  cases text : (Lexeme.read c rest).text with
  | nil => exact absurd text (Lexeme.read_text_ne_nil c rest)
  | cons d tail =>
      rw [text, ends, List.cons_append, List.cons.injEq] at whole
      obtain ⟨rfl, tail⟩ := whole
      rw [← List.append_assoc] at tail
      subst tail
      have le : more.length ≤ (Lexeme.read d (tail ++ front ++ more)).rest.length := by
        rw [ends, List.length_append]
        exact Nat.le_add_left _ _
      have same := Lexeme.read_cut le
      rw [same] at closed ends ⊢
      have here : (Lexeme.read d (tail ++ front)).rest = front := List.append_cancel_right ends
      rw [List.cons_append, run_lexeme closed, here]
      rfl

end ScriptLens
