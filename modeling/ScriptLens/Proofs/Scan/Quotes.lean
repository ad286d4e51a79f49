import ScriptLens.Proofs.Scan.Joining

/-!
Strings that never close, seen by a reader with three states that knows nothing of tokens. Outside
strings and comments no lexeme holds a quote or a semicolon, so the scanner fails exactly where this
reader ends in a string, and what it has read before is what it reads in the text up to the open
quote.
-/

namespace ScriptLens

/-- What a character stands in. -/
inductive Region where
  | code
  /-- Opened by a quote in code, closed by the next quote. -/
  | string
  /-- Opened by a semicolon in code, closed before the next line feed. -/
  | comment
deriving DecidableEq, Repr

namespace Region

def next : Region → Char → Region
  | code, c => if c = '"' then string else if c = ';' then comment else code
  | string, c => if c = '"' then code else string
  | comment, c => if c = '\n' then code else comment

/-- The region behind a text. -/
def after (r : Region) (text : List Char) : Region := text.foldl next r

theorem after_append (r : Region) (a b : List Char) : r.after (a ++ b) = (r.after a).after b :=
  List.foldl_append

theorem string_after {text : List Char} (h : '"' ∉ text) : string.after text = string := by
  induction text with
  | nil => rfl
  | cons c text ih =>
      rw [List.mem_cons, not_or] at h
      change (string.next c).after text = string
      rw [next, if_neg (Ne.symm h.1), ih h.2]

theorem comment_after {text : List Char} (h : '\n' ∉ text) : comment.after text = comment := by
  induction text with
  | nil => rfl
  | cons c text ih =>
      rw [List.mem_cons, not_or] at h
      change (comment.next c).after text = comment
      rw [next, if_neg (Ne.symm h.1), ih h.2]

/-- A line feed ends a comment. -/
theorem comment_after_feed (text : List Char) :
    comment.after ('\n' :: text) = code.after ('\n' :: text) :=
  rfl

end Region

/-- Characters that stay in code. -/
def isCode (c : Char) : Bool := c ≠ '"' && c ≠ ';'

theorem Region.code_after {text : List Char} (h : ∀ c ∈ text, isCode c = true) :
    code.after text = code := by
  induction text with
  | nil => rfl
  | cons c text ih =>
      have here := h c List.mem_cons_self
      simp only [isCode, ne_eq, decide_not, Bool.and_eq_true, Bool.not_eq_true',
        decide_eq_false_iff_not] at here
      change (code.next c).after text = code
      rw [next, if_neg here.1, if_neg here.2,
        ih fun d member => h d (List.mem_cons_of_mem c member)]

/-- A class without the quote and the semicolon holds characters of code only. -/
theorem isCode_of_class {cls : Char → Bool} (quote : cls '"' = false) (semicolon : cls ';' = false)
    {c : Char} (h : cls c = true) : isCode c = true := by
  by_cases isQuote : c = '"'
  · rw [isQuote, quote] at h
    cases h
  by_cases isSemicolon : c = ';'
  · rw [isSemicolon, semicolon] at h
    cases h
  simp [isCode, isQuote, isSemicolon]

namespace Lexeme

theorem run_isCode (shape : List Char → Shape) {head : List Char} {cls : Char → Bool}
    (first : ∀ c ∈ head, isCode c = true) (quote : cls '"' = false) (semicolon : cls ';' = false)
    (rest : List Char) : ∀ c ∈ (run shape head cls rest).text, isCode c = true := by
  intro c member
  rcases List.mem_append.mp member with inHead | inRest
  · exact first c inHead
  · exact isCode_of_class quote semicolon (List.mem_takeWhile_imp inRest)

theorem readNumber_isCode {digit : Char} (h : digit.isDigit = true) (rest : List Char) :
    ∀ c ∈ (readNumber digit rest).text, isCode c = true := by
  have digits : ∀ c ∈ digit :: rest.takeWhile Char.isDigit, isCode c = true := by
    intro c member
    rcases List.mem_cons.mp member with rfl | later
    · exact isCode_of_class rfl rfl h
    · exact isCode_of_class rfl rfl (List.mem_takeWhile_imp later)
  unfold readNumber
  dsimp only
  split
  · next d after found =>
      split
      · next fraction =>
          refine run_isCode _ ?_ rfl rfl _
          intro c member
          rcases List.mem_append.mp member with inside | point
          · exact digits c inside
          · simp only [List.mem_cons, List.not_mem_nil, or_false] at point
            rcases point with rfl | rfl
            · rfl
            · exact isCode_of_class rfl rfl fraction
      · exact digits
  · split
    · exact run_isCode _ (by simp [isCode]) rfl rfl _
    · exact digits
  · exact digits

theorem pairOr_isCode {first second : Char} (h : isCode first = true) (h' : isCode second = true)
    (two one : Kind)
    (rest : List Char) : ∀ c ∈ (pairOr first second two one rest).text, isCode c = true := by
  unfold pairOr
  split
  · split
    · next same => simp [h, same, h']
    · simp [h]
  · simp [h]

theorem readSymbol_isCode {c : Char} (h : isCode c = true) (rest : List Char) :
    ∀ d ∈ (readSymbol c rest).text, isCode d = true := by
  unfold readSymbol
  split
  · exact pairOr_isCode h rfl _ _ _
  · exact pairOr_isCode h rfl _ _ _
  · exact pairOr_isCode h rfl _ _ _
  · exact pairOr_isCode h rfl _ _ _
  · split <;> exact List.all_eq_true.mp rfl
  · split <;> exact List.all_eq_true.mp rfl
  · simpa using h

/-- A string that closes leads back into code. -/
theorem readString_region {rest : List Char} (closed : (readString rest).shape ≠ .unclosed) :
    Region.code.after (readString rest).text = .code := by
  unfold readString at closed ⊢
  cases found : rest.dropWhile (· != '"') with
  | nil =>
      rw [found] at closed
      exact absurd rfl closed
  | cons quote behind =>
      have ends : quote = '"' := Text.dropWhile_ne_stops (by rw [found]; exact rfl)
      have inside : '"' ∉ rest.takeWhile (· != '"') := by
        intro member
        have other := List.mem_takeWhile_imp member
        simp at other
      change Region.string.after (rest.takeWhile (· != '"') ++ [quote]) = .code
      rw [Region.after_append, Region.string_after inside, ends]
      rfl

/-- A lexeme that is no open string leads from code to code, or it is a comment up to the end of its
line. -/
theorem read_region {c : Char} {rest : List Char} (closed : (read c rest).shape ≠ .unclosed) :
    Region.code.after (read c rest).text = .code ∨ Region.code.after (read c rest).text = .comment ∧
      ∀ d ∈ (read c rest).rest.head?, d = '\n' := by
  unfold read at closed ⊢
  split
  · next blank =>
      refine .inl (Region.code_after ?_)
      simpa using isCode_of_class (show isBlank '"' = false from rfl) rfl blank
  rename_i blank
  split
  · next feed =>
      rw [feed]
      exact .inl rfl
  rename_i feed
  split
  · next semicolon =>
      refine .inr ⟨?_, ?_⟩
      · rw [semicolon]
        refine Region.comment_after ?_
        intro member
        have other := List.mem_takeWhile_imp member
        simp at other
      · exact fun d first => Text.dropWhile_ne_stops first
  rename_i semicolon
  split
  · next hash =>
      rw [hash]
      exact .inl (Region.code_after (run_isCode _ (by simp [isCode]) rfl rfl _))
  rename_i hash
  split
  · next quote =>
      rw [if_neg blank, if_neg feed, if_neg semicolon, if_neg hash, if_pos quote] at closed
      exact .inl (readString_region closed)
  rename_i quote
  have code : isCode c = true := by simp [isCode, quote, semicolon]
  split
  · next digit => exact .inl (Region.code_after (readNumber_isCode digit rest))
  split
  · exact .inl (Region.code_after (run_isCode _ (by simpa using code) rfl rfl _))
  · exact .inl (Region.code_after (readSymbol_isCode code rest))

end Lexeme

namespace Scanner

/-- A text without a fault does not end in a string. -/
theorem run_closed {s : Scanner} {text : List Char} (clean : (s.run text).2 = none) :
    Region.code.after text ≠ .string := by
  fun_induction Scanner.run s text with
  | case1 s => decide
  | case2 s c rest lexeme shape => cases clean
  | case3 s c rest lexeme shape ih =>
      rw [← Lexeme.read_append c rest, Region.after_append]
      rcases Lexeme.read_region shape with code | ⟨comment, line⟩
      · rw [code]
        exact ih clean
      · rw [comment]
        cases behind : (Lexeme.read c rest).rest with
        | nil => decide
        | cons d later =>
            have feed : d = '\n' := line d (by rw [behind]; rfl)
            rw [feed, Region.comment_after_feed, ← feed, ← behind]
            exact ih clean

/-- A fault is an open quote in code with no quote behind it. What was read before it is what the
text up to it gives. -/
theorem run_open {s : Scanner} {text : List Char} {e : LexError} (fault : (s.run text).2 = some e) :
    ∃ before behind,
    text = before ++ '"' :: behind ∧ '"' ∉ behind ∧ Region.code.after before = .code ∧
      (s.run before).2 = none ∧ e = .unterminatedString (s.run before).1.here ∧
      (s.run text).1.held = (s.run before).1.held := by
  fun_induction Scanner.run s text with
  | case1 s => cases fault
  | case2 s c rest lexeme shape =>
      have quote := Lexeme.read_unclosed shape
      subst quote
      have none := Lexeme.readString_unclosed shape
      refine ⟨[], rest, rfl, ?_, rfl, ?_, ?_, ?_⟩
      · intro member
        have other := List.dropWhile_eq_nil_iff.mp none _ member
        simp at other
      · rw [run_nil]
      · rw [run_nil]
        exact (Option.some.inj fault).symm
      · rw [run_nil]
        simp only [take, shape]
        rfl
  | case3 s c rest lexeme shape ih =>
      obtain ⟨before, behind, ends, last, code, clean, place, held⟩ := ih fault
      have ran := run_cut (s := s) shape ends
      refine ⟨(Lexeme.read c rest).text ++ before, behind, ?_, last, ?_, ?_, ?_, ?_⟩
      · rw [List.append_assoc, ← ends, Lexeme.read_append]
      · rw [Region.after_append]
        rcases Lexeme.read_region shape with stays | ⟨comment, line⟩
        · rw [stays, code]
        · -- the comment ends at a line feed, so text stands between it and the open quote
          rw [ends] at line
          cases before with
          | nil => exact absurd (line '"' rfl) (by decide)
          | cons d later =>
              have feed : d = '\n' := line d rfl
              rw [feed] at code ⊢
              rw [comment, Region.comment_after_feed, code]
      · rw [ran, clean]
      · rw [ran, place]
      · rw [ran, held]

end Scanner

theorem fault_of_error {source : String} {e : LexError} (h : tokenize source = .error e) :
    (scan source).fault = some e := by
  unfold tokenize at h
  dsimp only at h
  split at h
  · cases h
  · next fault =>
      cases h
      exact fault

/-- Scanning fails exactly for a script that ends in a string. The fault then is the last quote of
the script, which opens a string in code; the text before it can be scanned, and the tokens read are
those of this text with the end mark at the end of the script. A script without a fault is scanned
the same either way. -/
theorem tokenize_fails_iff (source : String) :
    ((∃ e, tokenize source = .error e) ↔ Region.code.after source.toList = .string) ∧
    (∀ e, tokenize source = .error e → ∃ before behind front final,
      source.toList = before ++ '"' :: behind ∧ '"' ∉ behind ∧ Region.code.after before = .code ∧
      e.position = Position.start.after before ∧ tokenize (String.ofList before) =
      .ok (front ++ [final]) ∧ final.kind = .eof ∧ scan source = ⟨front ++ [{ final with
        start := Position.start.after source.toList, stop := Position.start.after source.toList }],
        some e⟩) ∧ ∀ tokens, tokenize source = .ok tokens → scan source = ⟨tokens, none⟩ := by
  refine ⟨⟨?_, ?_⟩, ?_, ?_⟩
  · rintro ⟨e, failed⟩
    obtain ⟨before, behind, text, last, code, _⟩ := Scanner.run_open (fault_of_error failed)
    rw [text, Region.after_append, code]
    exact Region.string_after last
  · intro inString
    cases scanned : tokenize source with
    | error e => exact ⟨e, rfl⟩
    | ok tokens => exact absurd inString (Scanner.run_closed (fault_of_tokenize scanned).1)
  · intro e failed
    have fault := fault_of_error failed
    obtain ⟨before, behind, text, last, code, clean, place, held⟩ := Scanner.run_open fault
    have whole : (String.ofList before).toList = before := String.toList_ofList
    have clean' : (scan (String.ofList before)).fault = none := by
      rw [scan, whole]
      exact clean
    have front : lineTokens (String.ofList before) = (Scanner.initial.run before).1.held := by
      rw [lineTokens_eq, whole]
    let edge := Position.start.after (String.ofList before).toList
    refine ⟨before, behind, lineTokens (String.ofList before), ⟨.eof, "", edge, edge⟩, text, last,
      code, ?_, ?_, rfl, ?_⟩
    · rw [place, Scanner.run_here]
      rfl
    · rw [tokenize, clean', scan_tokens]
    · have tokens := scan_tokens source
      rw [lineTokens_eq, held, ← front] at tokens
      rw [← fault, ← tokens]
  · intro tokens scanned
    obtain ⟨clean, same⟩ := fault_of_tokenize scanned
    rw [← clean, ← same]

end ScriptLens
