import ScriptLens.LineChecks
import ScriptLens.Lint.Brackets
import ScriptLens.Proofs.Scan.Tails
import Mathlib.Data.List.Induction

/-!
What the bracket scan makes of the characters of a token. It leaves code at a quote and at a
semicolon behind white space, and comes back where the string or the comment ends; a token of any
other kind it reads in code, and only one that is a bracket changes what waits.
-/

namespace ScriptLens

/-- The character of a bracket. -/
def Kind.bracketChar? : Kind → Option Char
  | lBrace => some '\x7b'
  | rBrace => some '\x7d'
  | lParen => some '('
  | rParen => some ')'
  | lBracket => some '['
  | rBracket => some ']'
  | _ => none

namespace Lexeme

variable {c d : Char} {rest : List Char} {k : Kind}

theorem read_symbol_of_bracket (shape : (read c rest).shape = .token k)
    (bracket : k.bracketChar? = some d) : symbolKind c = k := by
  rcases read_token shape with ⟨_, rfl⟩ | ⟨_, rfl⟩ | spelled | symbol
  · cases bracket
  · cases bracket
  · revert spelled bracket
    cases k <;> simp [Kind.bracketChar?, Kind.isSpelled, Kind.isKeyword]
  · exact symbol.symm

/-- A bracket is its character. -/
theorem char_of_bracket (shape : (read c rest).shape = .token k)
    (bracket : k.bracketChar? = some d) : c = d := by
  rw [← read_symbol_of_bracket shape bracket] at bracket
  revert bracket
  unfold symbolKind
  split <;> simp [Kind.bracketChar?]

theorem read_bracket (bracket : k.bracketChar? = some c) (rest : List Char) :
    read c rest = ⟨.token k, [c], rest⟩ := by
  cases k <;> cases bracket <;> rfl

end Lexeme

theorem Token.Reads.bracket {t : Token} {body behind : List Char} {d : Char}
    (h : t.Reads body behind) (bracket : t.kind.bracketChar? = some d) : body = [d] := by
  have hotkey : t.kind ≠ .hotkey := by
    intro same
    rw [same] at bracket
    cases bracket
  obtain ⟨c, rest, ahead, read⟩ := h.first hotkey
  cases Lexeme.char_of_bracket (congrArg Lexeme.shape read) bracket
  rw [Lexeme.read_bracket bracket] at read
  exact (congrArg Lexeme.text read).symm

namespace Lint.Bracket

/-- The characters of a bracket. -/
def openingChar : Bracket → Char
  | brace => '\x7b'
  | paren => '('
  | square => '['

def closingChar : Bracket → Char
  | brace => '\x7d'
  | paren => ')'
  | square => ']'

theorem opening_char (b : Bracket) :
    b.opening.bracketChar? = some b.openingChar := by cases b <;> rfl

theorem closing_char (b : Bracket) :
    b.closing.bracketChar? = some b.closingChar := by cases b <;> rfl

end Lint.Bracket

namespace LineChecks.BracketScan

open Lint (Bracket)

/-- The scan behind a text. -/
def scanned (text : List Char) : BracketScan := text.foldl step {}

theorem scanned_snoc (text : List Char) (c : Char) :
    scanned (text ++ [c]) = (scanned text).step c := by
  rw [scanned, List.foldl_append]
  rfl

/-- The offsets at which brackets of a kind wait, innermost first. -/
def waiting (s : BracketScan) : Bracket → List Nat
  | .brace => s.braces
  | .paren => s.parens
  | .square => []

/-- The code of a closing bracket without a partner. -/
def unmatchedCode : Bracket → Code
  | .brace => .unmatchedBrace
  | .paren => .unmatchedParen
  | .square => .unmatchedBracket

/-- The offsets of closing brackets of a kind without a partner, in the order of the script. -/
def unmatchedAt (s : BracketScan) (b : Bracket) : List Nat :=
  (s.found.reverse.filter (·.1 = unmatchedCode b)).map (·.2.2)

variable {s t u : BracketScan} {b : Bracket} {c : Char} {front text : List Char}

/-- The scan behind one more character, before that character means anything. -/
def past (s : BracketScan) (c : Char) : BracketScan :=
  { s with before := some c, offset := s.offset + c.utf8Size }

/-- What a character can do to the scan: change what is being read, let a bracket wait, take one
that waits, or be told of. -/
inductive Step (s : BracketScan) (c : Char) : BracketScan → Prop
  | reading (mode : Mode) (marks : mode = s.mode ∨ c ∈ ['\n', '"', ';']) :
      Step s c { s.past c with mode := mode }
  | openBrace (char : c = '\x7b') : Step s c { s.past c with braces := s.offset :: s.braces }
  | openParen (char : c = '(') : Step s c { s.past c with parens := s.offset :: s.parens }
  | closeBrace (char : c = '\x7d') {opening : Nat} {rest : List Nat}
      (waits : s.braces = opening :: rest) : Step s c { s.past c with braces := rest }
  | closeParen (char : c = ')') {opening : Nat} {rest : List Nat}
      (waits : s.parens = opening :: rest) : Step s c { s.past c with parens := rest }
  | strayBrace (char : c = '\x7d') (alone : s.braces = []) : Step s c
      { s.past c with found := (.unmatchedBrace, "Unmatched closing brace", s.offset) :: s.found }
  | strayParen (char : c = ')') (alone : s.parens = []) :
      Step s c { s.past c with
        found := (.unmatchedParen, "Unmatched closing parenthesis", s.offset) :: s.found }

theorem step_spec (s : BracketScan) (c : Char) : Step s c (s.step c) := by
  unfold step
  dsimp only
  split
  · next feed => exact .reading .code (.inr (by simp [feed]))
  split
  · exact .reading s.mode (.inl rfl)
  split
  · next quoted =>
      have quote : c = '"' := by simp_all
      exact .reading _ (.inr (by simp [quote]))
  split
  · exact .reading s.mode (.inl rfl)
  split
  · next commented =>
      have semicolon : c = ';' := by simp_all
      exact .reading .comment (.inr (by simp [semicolon]))
  split
  · exact .openBrace rfl
  · exact .openParen rfl
  · split
    · next alone => exact .strayBrace rfl alone
    · next waits => exact .closeBrace rfl waits
  · split
    · next alone => exact .strayParen rfl alone
    · next waits => exact .closeParen rfl waits
  · exact .reading s.mode (.inl rfl)

theorem step_place (s : BracketScan) (c : Char) :
    (s.step c).offset = s.offset + c.utf8Size ∧ (s.step c).before = some c := by
  have took := step_spec s c
  generalize s.step c = t at took ⊢
  cases took <;> exact ⟨rfl, rfl⟩

theorem scanned_offset (text : List Char) : (scanned text).offset = Text.byteLength text := by
  induction text using List.reverseRecOn with
  | nil => rfl
  | append_singleton text c ih =>
      rw [scanned_snoc, (step_place _ c).1, ih, Text.byteLength_append]
      rfl

theorem scanned_before (text : List Char) : (scanned text).before = text.getLast? := by
  induction text using List.reverseRecOn with
  | nil => rfl
  | append_singleton text c ih => rw [scanned_snoc, (step_place _ c).2, List.getLast?_concat]

/-- Nothing happened to brackets of a kind. -/
structure Leaves (b : Bracket) (s t : BracketScan) : Prop where
  waiting : t.waiting b = s.waiting b
  unmatched : t.unmatchedAt b = s.unmatchedAt b

/-- Nor does the scan read anything else now. -/
structure Keeps (b : Bracket) (s t : BracketScan) : Prop extends Leaves b s t where
  mode : t.mode = s.mode

theorem Leaves.trans (first : Leaves b s t) (second : Leaves b t u) : Leaves b s u :=
  ⟨second.waiting.trans first.waiting, second.unmatched.trans first.unmatched⟩

theorem Keeps.trans (first : Keeps b s t) (second : Keeps b t u) : Keeps b s u :=
  ⟨first.toLeaves.trans second.toLeaves, second.mode.trans first.mode⟩

theorem Keeps.refl (s : BracketScan) : Keeps b s s := ⟨⟨rfl, rfl⟩, rfl⟩

/-- Characters that mean nothing to the scan, as far as brackets of a kind go. -/
def isInert (b : Bracket) (c : Char) : Bool := c ∉ ['\n', '"', ';', b.openingChar, b.closingChar]

theorem isInert_iff : isInert b c = true ↔ c ≠ '\n' ∧ c ≠ '"' ∧ c ≠ ';' ∧ c ≠ b.openingChar ∧
    c ≠ b.closingChar := by
  simp [isInert]

theorem step_inert (h : isInert b c = true) : Keeps b s (s.step c) := by
  obtain ⟨feed, quote, semicolon, opens, closes⟩ := isInert_iff.mp h
  have took := step_spec s c
  generalize s.step c = t at took ⊢
  -- the brackets of the other kind are left
  cases took with
  | reading mode marks =>
      have same : mode = s.mode := marks.resolve_right (by simp [feed, quote, semicolon])
      exact ⟨⟨rfl, rfl⟩, same⟩
  | openBrace char =>
      cases b with
      | brace => exact absurd char opens
      | paren => exact ⟨⟨rfl, rfl⟩, rfl⟩
      | square => exact ⟨⟨rfl, rfl⟩, rfl⟩
  | openParen char =>
      cases b with
      | brace => exact ⟨⟨rfl, rfl⟩, rfl⟩
      | paren => exact absurd char opens
      | square => exact ⟨⟨rfl, rfl⟩, rfl⟩
  | closeBrace char | strayBrace char =>
      cases b with
      | brace => exact absurd char closes
      | paren => exact ⟨⟨rfl, by simp [unmatchedAt, unmatchedCode, past]⟩, rfl⟩
      | square => exact ⟨⟨rfl, by simp [unmatchedAt, unmatchedCode, past]⟩, rfl⟩
  | closeParen char | strayParen char =>
      cases b with
      | brace => exact ⟨⟨rfl, by simp [unmatchedAt, unmatchedCode, past]⟩, rfl⟩
      | paren => exact absurd char closes
      | square => exact ⟨⟨rfl, by simp [unmatchedAt, unmatchedCode, past]⟩, rfl⟩

/-- Characters that each leave the scan as it is do so together. -/
theorem keeps_of_step {allowed : Char → Prop} {mode : Mode}
    (one : ∀ s : BracketScan, s.mode = mode → ∀ c, allowed c → Keeps b s (s.step c))
    (here : (scanned front).mode = mode) (text : List Char) (each : ∀ c ∈ text, allowed c) :
    Keeps b (scanned front) (scanned (front ++ text)) := by
  induction text using List.reverseRecOn with
  | nil => simpa using Keeps.refl (scanned front)
  | append_singleton text c ih =>
      have before := ih fun d member => each d (List.mem_append_left _ member)
      rw [← List.append_assoc, scanned_snoc]
      exact before.trans (one _ (before.mode.trans here) c (each c (by simp)))

theorem keeps_inert (front : List Char) {text : List Char} (each : ∀ c ∈ text, isInert b c = true) :
    Keeps b (scanned front) (scanned (front ++ text)) :=
  keeps_of_step (fun _ _ _ => step_inert) rfl text each

theorem keeps_comment (here : (scanned front).mode = .comment) (line : '\n' ∉ text) :
    Keeps b (scanned front) (scanned (front ++ text)) := by
  have one (s : BracketScan) (mode : s.mode = .comment) (c : Char) (other : c ≠ '\n') :
      Keeps b s (s.step c) := by
    rw [step.eq_def]
    dsimp only
    rw [if_neg other, if_pos mode]
    exact ⟨⟨rfl, rfl⟩, rfl⟩
  exact keeps_of_step one here text fun c member same => line (same ▸ member)

theorem keeps_string (here : (scanned front).mode = .string) (line : '\n' ∉ text)
    (quote : '"' ∉ text) : Keeps b (scanned front) (scanned (front ++ text)) := by
  have one (s : BracketScan) (mode : s.mode = .string) (c : Char) (other : c ≠ '\n' ∧ c ≠ '"') :
      Keeps b s (s.step c) := by
    have code : s.mode ≠ .comment := by rw [mode]; decide
    rw [step.eq_def]
    dsimp only
    rw [if_neg other.1, if_neg code, if_neg (by simp [other.2]), if_pos mode]
    exact ⟨⟨rfl, rfl⟩, rfl⟩
  exact keeps_of_step one here text fun c member =>
    ⟨fun same => line (same ▸ member), fun same => quote (same ▸ member)⟩

/-- A line break leads back into code from anywhere. -/
theorem leaves_feed (front : List Char) : Leaves b (scanned front) (scanned (front ++ ['\n'])) ∧
    (scanned (front ++ ['\n'])).mode = .code := by
  rw [scanned_snoc, step.eq_def]
  dsimp only
  rw [if_pos rfl]
  exact ⟨⟨rfl, rfl⟩, rfl⟩

theorem leaves_commented (code : (scanned front).mode = .code)
    (apart : ∀ c ∈ front.getLast?, Text.isSpace c = true)
    (line : '\n' ∉ text) : Leaves b (scanned front) (scanned (front ++ ';' :: text)) := by
  have behind : (scanned front).before.all Text.isSpace = true := by
    rw [scanned_before]
    cases last : front.getLast? with
    | none => rfl
    | some c => exact apart c last
  have opened : Leaves b (scanned front) (scanned (front ++ [';'])) ∧
      (scanned (front ++ [';'])).mode = .comment := by
    rw [scanned_snoc, step.eq_def]
    dsimp only
    rw [if_neg (by decide), if_neg (by simp [code]), if_neg (by simp), if_neg (by simp [code]),
      if_pos (by simp [behind])]
    exact ⟨⟨rfl, rfl⟩, rfl⟩
  have inside : Keeps b (scanned (front ++ [';'])) (scanned (front ++ [';'] ++ text)) :=
    keeps_comment opened.2 line
  rw [List.append_assoc, List.singleton_append] at inside
  exact opened.1.trans inside.toLeaves

/-- A string on one line, neither quote of it behind a backtick. -/
theorem keeps_quoted (code : (scanned front).mode = .code) (line : '\n' ∉ text) (quote : '"' ∉ text)
    (first : front.getLast? ≠ some '`') (last : (front ++ '"' :: text).getLast? ≠ some '`') :
    Keeps b (scanned front) (scanned (front ++ '"' :: (text ++ ['"']))) := by
  have opened : Leaves b (scanned front) (scanned (front ++ ['"'])) ∧
      (scanned (front ++ ['"'])).mode = .string := by
    rw [scanned_snoc, step.eq_def]
    dsimp only
    rw [if_neg (by decide), if_neg (by simp [code]), if_pos (by simpa [scanned_before] using first)]
    exact ⟨⟨rfl, rfl⟩, by simp [code]⟩
  have inside : Keeps b (scanned (front ++ ['"'])) (scanned (front ++ ['"'] ++ text)) :=
    keeps_string opened.2 line quote
  rw [List.append_assoc, List.singleton_append] at inside
  have mode : (scanned (front ++ '"' :: text)).mode = .string := inside.mode.trans opened.2
  have closed :
      Leaves b (scanned (front ++ '"' :: text)) (scanned (front ++ '"' :: text ++ ['"'])) ∧
      (scanned (front ++ '"' :: text ++ ['"'])).mode = .code := by
    rw [scanned_snoc, step.eq_def]
    dsimp only
    rw [if_neg (by decide), if_neg (by simp [mode]), if_pos (by simpa [scanned_before] using last)]
    exact ⟨⟨rfl, rfl⟩, by simp [mode]⟩
  rw [List.append_assoc, List.cons_append] at closed
  exact ⟨opened.1.trans (inside.toLeaves.trans closed.1), closed.2.trans code.symm⟩

section Brackets

variable (watched : b ≠ .square) (code : s.mode = .code)

include watched code

theorem step_opening : (s.step b.openingChar).mode = .code ∧
    (s.step b.openingChar).waiting b = s.offset :: s.waiting b ∧
    (s.step b.openingChar).unmatchedAt b = s.unmatchedAt b := by
  cases b with
  | square => contradiction
  | brace =>
      rw [step.eq_def]
      simp [Bracket.openingChar, code, waiting, unmatchedAt]
  | paren =>
      rw [step.eq_def]
      simp [Bracket.openingChar, code, waiting, unmatchedAt]

theorem step_closing {offset : Nat} {more : List Nat} (waits : s.waiting b = offset :: more) :
    (s.step b.closingChar).mode = .code ∧ (s.step b.closingChar).waiting b = more ∧
      (s.step b.closingChar).unmatchedAt b = s.unmatchedAt b := by
  cases b with
  | square => contradiction
  | brace =>
      have waits : s.braces = offset :: more := waits
      rw [step.eq_def]
      simp [Bracket.closingChar, code, waiting, unmatchedAt, waits]
  | paren =>
      have waits : s.parens = offset :: more := waits
      rw [step.eq_def]
      simp [Bracket.closingChar, code, waiting, unmatchedAt, waits]

theorem step_closing_unmatched (none : s.waiting b = []) : (s.step b.closingChar).mode = .code ∧
    (s.step b.closingChar).waiting b = [] ∧
    (s.step b.closingChar).unmatchedAt b = s.unmatchedAt b ++ [s.offset] := by
  cases b with
  | square => contradiction
  | brace =>
      have none : s.braces = [] := none
      rw [step.eq_def]
      simp [Bracket.closingChar, code, waiting, unmatchedAt, unmatchedCode, none]
  | paren =>
      have none : s.parens = [] := none
      rw [step.eq_def]
      simp [Bracket.closingChar, code, waiting, unmatchedAt, unmatchedCode, none]

end Brackets

/-- A class without the characters that mean something. -/
theorem isInert_of_class {cls : Char → Bool} (h : cls c = true)
    (other : ['\n', '"', ';', b.openingChar, b.closingChar].any cls = false) :
    isInert b c = true := by
  rw [isInert, decide_eq_true_eq]
  intro member
  exact List.any_eq_false.mp other c member h

theorem isInert_of_isTail (h : isTail c = true) : isInert b c = true :=
  isInert_of_class h (by cases b <;> rfl)

theorem keeps_blanks (front : List Char) {gap : List Char} (blank : ∀ c ∈ gap, isBlank c = true) :
    Keeps b (scanned front) (scanned (front ++ gap)) :=
  keeps_inert front fun c member => isInert_of_class (blank c member) (by cases b <;> rfl)

/-- A lexeme on one line that is neither a comment nor a bracket of the kind. -/
theorem keeps_lexeme {rest : List Char} (code : (scanned front).mode = .code)
    (closed : (Lexeme.read c rest).shape ≠ .unclosed) (comment : c ≠ ';')
    (line : '\n' ∉ (Lexeme.read c rest).text) (first : c ≠ b.openingChar ∧ c ≠ b.closingChar)
    (quotes : ∀ x y, (Lexeme.read c rest).text = x ++ '"' :: y → (front ++ x).getLast? ≠ some '`') :
    Keeps b (scanned front) (scanned (front ++ (Lexeme.read c rest).text)) := by
  by_cases quote : c = '"'
  · subst quote
    obtain ⟨_, inner, text, free⟩ := Lexeme.read_quote closed
    rw [text] at line quotes ⊢
    have inside : '\n' ∉ inner := fun member => line (by simp [member])
    have opening := quotes [] (inner ++ ['"']) rfl
    have closing := quotes ('"' :: inner) [] rfl
    rw [List.append_nil] at opening
    exact keeps_quoted code inside free opening closing
  · obtain ⟨tail, text, inside⟩ := Lexeme.read_tailed comment quote rest
    rw [text] at line ⊢
    apply keeps_inert
    intro d member
    rcases List.mem_cons.mp member with rfl | later
    · exact isInert_iff.mpr
        ⟨fun feed => line (feed ▸ List.mem_cons_self), quote, comment, first.1, first.2⟩
    · exact isInert_of_isTail (inside d later)

/-- Lexemes on one line without brackets of the kind, as in a hotkey. -/
theorem keeps_oneLine {behind : List Char} (h : OneLine text behind)
    (code : (scanned front).mode = .code)
    (plain : ∀ d ∈ text, d ≠ b.openingChar ∧ d ≠ b.closingChar)
    (quotes : ∀ x y, text = x ++ '"' :: y → (front ++ x).getLast? ≠ some '`') :
    Keeps b (scanned front) (scanned (front ++ text)) := by
  induction h generalizing front with
  | nil => simpa using Keeps.refl (scanned front)
  | @lexeme c rest text behind closed comment line next tail ih =>
      obtain ⟨more, head⟩ := Lexeme.read_head c rest
      have first := keeps_lexeme (b := b) code closed comment line
        (plain c (by rw [head]; simp)) fun x y split => quotes x (y ++ text) (by rw [split]; simp)
      have code' : (scanned (front ++ (Lexeme.read c rest).text)).mode = .code :=
        first.mode.trans code
      have later := ih code'
        (fun d member => plain d (List.mem_append_right _ member))
        fun x y split => by
          rw [List.append_assoc]
          exact quotes _ y (by rw [split]; simp)
      rw [List.append_assoc] at later
      exact first.trans later

/-- What the scan needs of a token, which covers `body` behind `front`, so as to read it as the
lexer did. -/
structure Tame (b : Bracket) (t : Token) (front body : List Char) : Prop where
  string : t.kind = .string → '\n' ∉ body
  quotes : t.kind ≠ .comment → ∀ x y, body = x ++ '"' :: y → (front ++ x).getLast? ≠ some '`'
  comment : t.kind = .comment → ∀ c ∈ front.getLast?, Text.isSpace c = true
  hotkey : t.kind = .hotkey → ∀ c ∈ body, c ≠ b.openingChar ∧ c ≠ b.closingChar

/-- The scan reads code, or a line break or nothing comes next. -/
def Ready (front rest : List Char) : Prop :=
  (scanned front).mode = .code ∨ ∀ d ∈ rest.head?, d = '\n'

variable {token : Token} {body behind : List Char}

theorem Ready.code (ready : Ready front (body ++ behind)) (reads : token.Reads body behind)
    (nonempty : body ≠ []) (other : token.kind ≠ .newline) : (scanned front).mode = .code := by
  rcases ready with code | feed
  · exact code
  · obtain ⟨c, body, rfl⟩ := List.exists_cons_of_ne_nil nonempty
    have first : c = '\n' := feed c rfl
    subst first
    exact absurd reads.feed other

/-- A token that is no bracket of the kind. -/
theorem leaves_token (reads : token.Reads body behind) (nonempty : body ≠ [])
    (tame : Tame b token front body) (ready : Ready front (body ++ behind))
    (opens : token.kind ≠ b.opening) (closes : token.kind ≠ b.closing) :
    Leaves b (scanned front) (scanned (front ++ body)) ∧ Ready (front ++ body) behind := by
  by_cases newline : token.kind = .newline
  · rw [reads.newline newline]
    obtain ⟨leaves, code⟩ := leaves_feed (b := b) front
    exact ⟨leaves, .inl code⟩
  have code := ready.code reads nonempty newline
  by_cases comment : token.kind = .comment
  · obtain ⟨head, line, feed⟩ := reads.comment comment
    obtain ⟨tail, rfl⟩ := List.head?_eq_some_iff.mp head
    have free : '\n' ∉ tail := fun member => line (List.mem_cons_of_mem _ member)
    exact ⟨leaves_commented code (tame.comment comment) free, .inr feed⟩
  have line : '\n' ∉ body := by
    by_cases string : token.kind = .string
    · exact tame.string string
    · exact reads.line string newline
  suffices keeps : Keeps b (scanned front) (scanned (front ++ body)) from
    ⟨keeps.toLeaves, .inl (keeps.mode.trans code)⟩
  cases reads with
  | @lexeme c rest ahead read =>
      have text : (Lexeme.read c rest).text = body := congrArg Lexeme.text read
      have shape : (Lexeme.read c rest).shape = .token token.kind := congrArg Lexeme.shape read
      rw [← text] at line ⊢
      refine keeps_lexeme code (by rw [shape]; simp) ?_ line ⟨?_, ?_⟩ (text ▸ tame.quotes comment)
      · rintro rfl
        exact comment (Shape.token.inj ((Lexeme.read_comment rest).1.symm.trans shape)).symm
      · rintro rfl
        rw [Lexeme.read_bracket b.opening_char] at shape
        exact opens (Shape.token.inj shape).symm
      · rintro rfl
        rw [Lexeme.read_bracket b.closing_char] at shape
        exact closes (Shape.token.inj shape).symm
  | hotkey kind strung => exact keeps_oneLine strung code (tame.hotkey kind) (tame.quotes comment)

end LineChecks.BracketScan

end ScriptLens
