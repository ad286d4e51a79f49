import ScriptLens.Json.Parse
import ScriptLens.Json.Print

/-!
Lexemes of written JSON. A quoted text is read back character by character, whatever follows it, and
so is each sign and each word; blanks between them are passed over.
-/

namespace ScriptLens.Json

theorem hexValue?_hexDigit : ∀ n < 16, hexValue? (hexDigit n) = some n := by decide

/-- A character that is written by its number is read back. -/
theorem unit?_control {c : Char} (control : c.toNat < 32) :
    unit? '0' '0' (hexDigit (c.toNat / 16)) (hexDigit (c.toNat % 16)) = some c.toNat := by
  have zero : hexValue? '0' = some 0 := rfl
  rw [unit?, zero, hexValue?_hexDigit _ (by omega), hexValue?_hexDigit _ (by omega)]
  simp only [Option.bind_eq_bind, Option.bind_some, Option.pure_def]
  congr 1
  omega

/-- What is written for a character inside quotes: a short escape, its number or the character
itself. -/
theorem escapeChar_cases (c : Char) :
    (∃ e, escaped? e = some c ∧ e ≠ 'u' ∧ escapeChar c = ['\\', e]) ∨ (c.toNat < 32 ∧
      escapeChar c = ['\\', 'u', '0', '0', hexDigit (c.toNat / 16), hexDigit (c.toNat % 16)]) ∨
    (c ≠ '"' ∧ c ≠ '\\' ∧ ¬c.toNat < 32 ∧ escapeChar c = [c]) := by
  unfold escapeChar
  split
  · next same => exact .inl ⟨'"', congrArg some same.symm, by decide, rfl⟩
  split
  · next same => exact .inl ⟨'\\', congrArg some same.symm, by decide, rfl⟩
  split
  · next same => exact .inl ⟨'n', congrArg some same.symm, by decide, rfl⟩
  split
  · next same => exact .inl ⟨'t', congrArg some same.symm, by decide, rfl⟩
  split
  · next same => exact .inl ⟨'r', congrArg some same.symm, by decide, rfl⟩
  split
  · next same => exact .inl ⟨'b', congrArg some same.symm, by decide, rfl⟩
  split
  · next same => exact .inl ⟨'f', congrArg some same.symm, by decide, rfl⟩
  split
  · next control => exact .inr (.inl ⟨control, rfl⟩)
  · next quote slash _ _ _ _ _ visible => exact .inr (.inr ⟨quote, slash, visible, rfl⟩)

/-- What is written for a character inside quotes is read as this character. -/
theorem readString?_escapeChar (c : Char) (collected rest : List Char) :
    readString? (some collected) (escapeChar c ++ rest) =
    readString? (some (c :: collected)) rest := by
  rcases escapeChar_cases c with
    ⟨e, stands, other, written⟩ | ⟨control, written⟩ | ⟨quote, slash, visible, written⟩
  · rw [written, readString?.eq_def]
    simp [other, stands]
  · have whole : c.toNat < 0xD800 ∨ 0xE000 ≤ c.toNat := .inl (by omega)
    rw [written, readString?.eq_def]
    simp [unit?_control control, whole]
  · rw [written, readString?.eq_def]
    simp [slash, visible]

theorem readString?_quoted (text collected rest : List Char) :
    readString? (some collected) (text.flatMap escapeChar ++ '"' :: rest) =
      some (some (collected.reverse ++ text), rest) := by
  induction text generalizing collected with
  | nil =>
      rw [List.append_nil]
      rfl
  | cons c text ih =>
      rw [List.flatMap_cons, List.append_assoc, readString?_escapeChar, ih]
      simp

/-- A text that is cut into lexemes whatever stands behind it. -/
def Lexes (text : List Char) (lexemes : List Lexeme) : Prop :=
  ∀ rest, lexemes? (text ++ rest) = (lexemes? rest).map (lexemes ++ ·)

namespace Lexes

variable {a b : List Char} {x y : List Lexeme}

theorem nil : Lexes [] [] := by
  intro rest
  rw [List.nil_append]
  cases lexemes? rest <;> rfl

theorem append (first : Lexes a x) (second : Lexes b y) : Lexes (a ++ b) (x ++ y) := by
  intro rest
  rw [List.append_assoc, first, second, Option.map_map]
  congr 1
  funext more
  exact (List.append_assoc x y more).symm

theorem lexemes?_eq (h : Lexes a x) : lexemes? a = some x := by
  have alone := h []
  rw [List.append_nil, lexemes?] at alone
  simpa using alone

/-- One lexeme is read off the front. -/
theorem single {c : Char} {tail : List Char} {lexeme : Lexeme} (solid : isSpace c = false)
    (read : ∀ rest, readLexeme? c (tail ++ rest) = some (lexeme, rest)) :
    Lexes (c :: tail) [lexeme] := by
  intro rest
  have shorter : rest.length < (c :: (tail ++ rest)).length := by
    rw [List.length_cons, List.length_append]
    omega
  rw [List.cons_append, lexemes?, if_neg (by simp [solid]), read]
  simp only [if_pos shorter]
  rfl

theorem blanks {gap : List Char} (blank : ∀ c ∈ gap, isSpace c = true) : Lexes gap [] := by
  induction gap with
  | nil => exact nil
  | cons c gap ih =>
      intro rest
      rw [List.cons_append, lexemes?, if_pos (blank c List.mem_cons_self)]
      exact ih (fun d member => blank d (List.mem_cons_of_mem c member)) rest

theorem text (text : String) : Lexes (quote text).toList [.text (some text)] := by
  rw [quote, String.toList_ofList]
  refine single rfl fun rest => ?_
  rw [List.append_assoc]
  have read := readString?_quoted text.toList [] rest
  simp only [readLexeme?, List.cons_append, List.nil_append, read]
  simp

end Lexes

end ScriptLens.Json
