import ScriptLens.Token.Basic

/-!
The lexeme at the head of a text. What a lexeme is depends on the characters ahead only, never on
what was read before; the main statements say that a lexeme and the rest after it make up the text,
and that a lexeme is never empty.
-/

namespace ScriptLens

/-- Blanks separate tokens and belong to none. -/
def isBlank (c : Char) : Bool := c = ' ' || c = '\t' || c = '\r' || c = '\ufeff'

def isWordStart (c : Char) : Bool := c.isAlpha || c = '_'

def isWordPart (c : Char) : Bool := c.isAlphanum || c = '_'

def isHexDigit (c : Char) : Bool :=
  c.isDigit || (decide ('a' ≤ c) && decide (c ≤ 'f')) || (decide ('A' ≤ c) && decide (c ≤ 'F'))

/-- What stands at the head of a text. -/
inductive Shape where
  /-- A blank, which yields no token. -/
  | blank
  /-- A token of a kind that its characters decide. -/
  | token (kind : Kind)
  /-- The pair `::`, which turns what stands before it on the line into a hotkey. -/
  | colonPair
  /-- A string whose closing quote is missing. -/
  | unclosed
deriving DecidableEq, Repr

/-- A lexeme: its shape, its characters and the text after it. -/
structure Lexeme where
  shape : Shape
  text : List Char
  rest : List Char
deriving DecidableEq, Repr

namespace Lexeme

/-- The lexeme `head` continued by all characters in a class. -/
def run (shape : List Char → Shape) (head : List Char) (cls : Char → Bool)
    (rest : List Char) : Lexeme :=
  let text := head ++ rest.takeWhile cls
  ⟨shape text, text, rest.dropWhile cls⟩

/-- A string from its opening quote: it ends with the next quote, wherever that is. -/
def readString (rest : List Char) : Lexeme :=
  match rest.dropWhile (· != '"') with
  | [] => ⟨.unclosed, '"' :: rest, []⟩
  | quote :: after => ⟨.token .string, '"' :: (rest.takeWhile (· != '"') ++ [quote]), after⟩

/-- A number from its first digit: digits with an optional fraction, or `0x` with hexadecimal
digits. -/
def readNumber (digit : Char) (rest : List Char) : Lexeme :=
  let digits := digit :: rest.takeWhile Char.isDigit
  match rest.dropWhile Char.isDigit with
  | '.' :: d :: after =>
    if d.isDigit then run (fun _ => .token .number) (digits ++ ['.', d]) Char.isDigit after
    else ⟨.token .number, digits, '.' :: d :: after⟩
  | 'x' :: after =>
    if digits = ['0'] then run (fun _ => .token .number) ['0', 'x'] isHexDigit after
    else ⟨.token .number, digits, 'x' :: after⟩
  | after => ⟨.token .number, digits, after⟩

/-- A symbol that is `two` when `second` follows it, and `one` otherwise. -/
def pairOr (first second : Char) (two one : Kind) : List Char → Lexeme
  | c :: rest =>
    if c = second then ⟨.token two, [first, c], rest⟩ else ⟨.token one, [first], c :: rest⟩
  | [] => ⟨.token one, [first], []⟩

/-- The kind of a symbol that stands for itself; a character without a meaning is an identifier. -/
def symbolKind : Char → Kind
  | '(' => .lParen | ')' => .rParen | '{' => .lBrace | '}' => .rBrace
  | '[' => .lBracket | ']' => .rBracket | ',' => .comma | '.' => .dot
  | '?' => .question | '&' => .ampersand | '|' => .pipe
  | '+' => .plus | '-' => .minus | '/' => .divide | '=' => .equals
  | _ => .identifier

/-- A symbol of one or two characters. -/
def readSymbol (c : Char) (rest : List Char) : Lexeme :=
  match c with
  | '*' => pairOr c '*' .power .multiply rest
  | '~' => pairOr c '=' .regexMatch .identifier rest
  | '<' => pairOr c '=' .lessEqual .less rest
  | '>' => pairOr c '=' .greaterEqual .greater rest
  | '!' =>
    match rest with
    | '=' :: after => ⟨.token .notEquals, ['!', '='], after⟩
    | '~' :: after => ⟨.token .regexNotMatch, ['!', '~'], after⟩
    | _ => ⟨.token .identifier, ['!'], rest⟩
  | ':' =>
    match rest with
    | '=' :: after => ⟨.token .assign, [':', '='], after⟩
    | ':' :: after => ⟨.colonPair, [':', ':'], after⟩
    | _ => ⟨.token .colon, [':'], rest⟩
  | c => ⟨.token (symbolKind c), [c], rest⟩

/-- The lexeme at the head of `c :: rest`. -/
def read (c : Char) (rest : List Char) : Lexeme :=
  if isBlank c then ⟨.blank, [c], rest⟩
  else if c = '\n' then ⟨.token .newline, [c], rest⟩
  else if c = ';' then run (fun _ => .token .comment) [c] (· != '\n') rest
  else if c = '#' then run (fun _ => .token .directive) [c] isWordPart rest
  else if c = '"' then readString rest
  else if c.isDigit then readNumber c rest
  else if isWordStart c then run (fun text => .token (.ofWord text)) [c] isWordPart rest
  else readSymbol c rest

theorem run_append (shape head cls rest) :
    (run shape head cls rest).text ++ (run shape head cls rest).rest = head ++ rest := by
  simp [run]

theorem readString_append (rest : List Char) :
    (readString rest).text ++ (readString rest).rest = '"' :: rest := by
  unfold readString
  split
  · simp
  · next quote after h =>
    have parts : rest.takeWhile (· != '"') ++ rest.dropWhile (· != '"') = rest :=
      List.takeWhile_append_dropWhile
    rw [h] at parts
    simpa using parts

theorem readNumber_append (digit : Char) (rest : List Char) :
    (readNumber digit rest).text ++ (readNumber digit rest).rest = digit :: rest := by
  have parts : rest.takeWhile Char.isDigit ++ rest.dropWhile Char.isDigit = rest :=
    List.takeWhile_append_dropWhile
  unfold readNumber
  split
  · next d after h =>
    rw [h] at parts
    split
    · rw [run_append]; simpa using parts
    · simpa using parts
  · next after h =>
    rw [h] at parts
    dsimp only
    split
    · next zero =>
      rw [run_append]
      have head : digit = '0' := by simpa using congrArg List.head? zero
      have empty : rest.takeWhile Char.isDigit = [] := by simpa using congrArg List.tail zero
      rw [empty] at parts
      simp [head, ← parts]
    · simpa using parts
  · simp

theorem pairOr_append (first second : Char) (two one : Kind) (rest : List Char) :
    (pairOr first second two one rest).text ++ (pairOr first second two one rest).rest =
      first :: rest := by
  unfold pairOr
  split
  · split <;> simp
  · simp

theorem readSymbol_append (c : Char) (rest : List Char) :
    (readSymbol c rest).text ++ (readSymbol c rest).rest = c :: rest := by
  unfold readSymbol
  split <;> (try exact pairOr_append ..) <;> (try split) <;> simp

/-- A lexeme and the rest after it make up the text. -/
theorem read_append (c : Char) (rest : List Char) :
    (read c rest).text ++ (read c rest).rest = c :: rest := by
  unfold read
  repeat' split
  all_goals first
    | exact run_append ..
    | exact readSymbol_append ..
    | exact readNumber_append ..
    | (subst_vars; exact readString_append _)
    | simp

theorem readString_text_ne_nil (rest : List Char) : (readString rest).text ≠ [] := by
  unfold readString
  split <;> simp

theorem readNumber_text_ne_nil (digit : Char) (rest : List Char) :
    (readNumber digit rest).text ≠ [] := by
  unfold readNumber
  dsimp only
  repeat' split
  all_goals simp [run]

theorem pairOr_text_ne_nil (first second : Char) (two one : Kind) (rest : List Char) :
    (pairOr first second two one rest).text ≠ [] := by
  unfold pairOr
  split
  · split <;> simp
  · simp

theorem readSymbol_text_ne_nil (c : Char) (rest : List Char) : (readSymbol c rest).text ≠ [] := by
  unfold readSymbol
  split <;> (try exact pairOr_text_ne_nil _ _ _ _ _) <;> (try split) <;> simp

/-- A lexeme covers at least one character. -/
theorem read_text_ne_nil (c : Char) (rest : List Char) : (read c rest).text ≠ [] := by
  unfold read
  repeat' split
  all_goals first
    | exact readSymbol_text_ne_nil _ _
    | exact readNumber_text_ne_nil _ _
    | exact readString_text_ne_nil _
    | simp [run]

/-- Reading a lexeme leaves less text. -/
theorem read_rest_length (c : Char) (rest : List Char) :
    (read c rest).rest.length < (c :: rest).length := by
  have whole := congrArg List.length (read_append c rest)
  have positive := List.length_pos_iff.mpr (read_text_ne_nil c rest)
  rw [List.length_append] at whole
  omega

end Lexeme

end ScriptLens
