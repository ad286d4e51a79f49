import ScriptLens.Proofs.Scan.Tiling

/-!
Lexemes are local. A character that belongs to no word and ends no symbol stops a lexeme, so what
stands before it is read as if the text ended there. From this follows what the scanner does with a
text on one line that holds no comment, string or colon pair, and with the trigger of a hotkey.
-/

namespace ScriptLens

/-- Characters that end every lexeme but a comment, a string and a colon. -/
def isStop (c : Char) : Bool := c ∈ [' ', '\n', ':']

theorem isStop_cases {P : Char → Prop} (blank : P ' ') (line : P '\n') (colon : P ':') (c : Char)
    (h : isStop c = true) : P c := by
  simp only [isStop, List.mem_cons, List.not_mem_nil, or_false, decide_eq_true_eq] at h
  rcases h with rfl | rfl | rfl
  · exact blank
  · exact line
  · exact colon

namespace Lexeme

/-- The lexeme where more text follows. -/
def before (lexeme : Lexeme) (more : List Char) : Lexeme :=
  { lexeme with rest := lexeme.rest ++ more }

@[simp] theorem before_mk (shape : Shape) (text rest more : List Char) :
    before ⟨shape, text, rest⟩ more = ⟨shape, text, rest ++ more⟩ := rfl

section Stop

variable {cls : Char → Bool} {stop : Char} (other : cls stop = false)
include other

theorem takeWhile_stop (front more : List Char) :
    (front ++ stop :: more).takeWhile cls = front.takeWhile cls := by
  induction front with
  | nil => simp [other]
  | cons c front ih => simp [List.takeWhile_cons, ih]

theorem dropWhile_stop (front more : List Char) :
    (front ++ stop :: more).dropWhile cls = front.dropWhile cls ++ stop :: more := by
  induction front with
  | nil => simp [other]
  | cons c front ih =>
      rw [List.cons_append, List.dropWhile_cons, List.dropWhile_cons, ih]
      split <;> rfl

theorem run_stop (shape : List Char → Shape) (head front more : List Char) :
    run shape head cls (front ++ stop :: more) =
    (run shape head cls front).before (stop :: more) := by
  rw [run, takeWhile_stop other, dropWhile_stop other]
  rfl

end Stop

theorem pairOr_stop {stop second : Char} (other : stop ≠ second) (first : Char) (two one : Kind)
    (front more : List Char) : pairOr first second two one (front ++ stop :: more) =
    (pairOr first second two one front).before (stop :: more) := by
  cases front with
  | nil => simp [pairOr, other]
  | cons c front =>
      simp only [List.cons_append, pairOr]
      split <;> rfl

/-- A stop is no part of a number, a word or a symbol. -/
structure Stops (stop : Char) : Prop where
  word : isWordPart stop = false
  digit : stop.isDigit = false
  hexDigit : isHexDigit stop = false
  symbol : stop ∉ ['.', 'x', '*', '=', '~']

theorem stops_of_isStop {stop : Char} (h : isStop stop = true) : Stops stop :=
  isStop_cases ⟨rfl, rfl, rfl, by decide⟩ ⟨rfl, rfl, rfl, by decide⟩
    ⟨rfl, rfl, rfl, by decide⟩ stop h

theorem readNumber_stop {stop : Char} (h : Stops stop) (digit : Char) (front more : List Char) :
    readNumber digit (front ++ stop :: more) = (readNumber digit front).before (stop :: more) := by
  have point : stop ≠ '.' := fun same => h.symbol (by simp [same])
  have mark : stop ≠ 'x' := fun same => h.symbol (by simp [same])
  unfold readNumber
  simp only [takeWhile_stop h.digit, dropWhile_stop h.digit]
  generalize front.dropWhile Char.isDigit = behind
  -- what stands behind the digits decides, and the stop itself is neither a point nor the mark of a
  -- radix
  cases behind with
  | nil => simp [point, mark]
  | cons a after =>
      by_cases isPoint : a = '.'
      · subst isPoint
        cases after with
        | nil => simp [h.digit]
        | cons d after =>
            simp only [List.cons_append]
            split
            · exact run_stop h.digit _ _ _ _
            · rfl
      · by_cases isMark : a = 'x'
        · subst isMark
          simp only [List.cons_append]
          split
          · exact run_stop h.hexDigit _ _ _ _
          · rfl
        · simp [isPoint, isMark]

theorem readString_append_of_closed {front : List Char}
    (closed : (readString front).shape ≠ .unclosed) (more : List Char) :
    readString (front ++ more) = (readString front).before more := by
  unfold readString at closed ⊢
  cases behind : front.dropWhile (· != '"') with
  | nil =>
      rw [behind] at closed
      exact absurd rfl closed
  | cons quote after =>
      have drop : (front ++ more).dropWhile (· != '"') = quote :: (after ++ more) := by
        rw [List.dropWhile_append, behind]
        rfl
      have shorter : (front.takeWhile (· != '"')).length ≠ front.length := by
        have parts :=
          congrArg List.length (List.takeWhile_append_dropWhile (p := (· != '"')) (l := front))
        rw [behind, List.length_append, List.length_cons] at parts
        omega
      have take : (front ++ more).takeWhile (· != '"') = front.takeWhile (· != '"') := by
        rw [List.takeWhile_append, if_neg shorter]
      rw [drop, take]
      rfl

theorem readSymbol_stop {c stop : Char} (h : Stops stop) (colon : c = ':' → stop ≠ ':')
    (front more : List Char) :
    readSymbol c (front ++ stop :: more) = (readSymbol c front).before (stop :: more) := by
  have star : stop ≠ '*' := fun same => h.symbol (by simp [same])
  have equals : stop ≠ '=' := fun same => h.symbol (by simp [same])
  have tilde : stop ≠ '~' := fun same => h.symbol (by simp [same])
  unfold readSymbol
  split
  · exact pairOr_stop star ..
  · exact pairOr_stop equals ..
  · exact pairOr_stop equals ..
  · exact pairOr_stop equals ..
  · cases front with
    | nil => simp [equals, tilde]
    | cons d front =>
        by_cases first : d = '='
        · simp [first]
        by_cases second : d = '~'
        · simp [second]
        · simp [first, second]
  · cases front with
    | nil => simp [equals, colon rfl]
    | cons d front =>
        by_cases first : d = '='
        · simp [first]
        by_cases second : d = ':'
        · simp [second]
        · simp [first, second]
  · rfl

/-- A lexeme before a character that stops it is the lexeme of the text up to there. -/
theorem read_before_stop {c stop : Char} (stops : Stops stop) {front : List Char}
    (comment : c ≠ ';')
    (colon : c = ':' → stop ≠ ':') (closed : (read c front).shape ≠ .unclosed) (more : List Char) :
    read c (front ++ stop :: more) = (read c front).before (stop :: more) := by
  unfold read at closed ⊢
  split
  · rfl
  split
  · rfl
  split
  · exact run_stop stops.word ..
  split
  · exact readString_append_of_closed (by simp_all) _
  split
  · exact readNumber_stop stops ..
  split
  · exact run_stop stops.word ..
  · exact readSymbol_stop stops colon ..

theorem read_stop {c stop : Char} (h : isStop stop = true) {front : List Char} (comment : c ≠ ';')
    (colon : c = ':' → stop ≠ ':') (closed : (read c front).shape ≠ .unclosed) (more : List Char) :
    read c (front ++ stop :: more) = (read c front).before (stop :: more) :=
  read_before_stop (stops_of_isStop h) comment colon closed more

end Lexeme

/-- Kinds of tokens within a line. -/
def Kind.isInline (k : Kind) : Bool := k ∉ [newline, eof, comment]

namespace Lexeme

/-- Only a line feed is a line break, and only a semicolon opens a comment. -/
theorem read_isInline {c : Char} {rest : List Char} {k : Kind}
    (shape : (read c rest).shape = .token k)
    (line : c ≠ '\n') (comment : c ≠ ';') : k.isInline = true := by
  rcases read_token shape with ⟨feed, _⟩ | ⟨semicolon, _⟩ | spelled | rfl
  · exact absurd feed line
  · exact absurd semicolon comment
  · revert spelled
    cases k <;> decide
  · unfold symbolKind
    split <;> rfl

theorem read_unclosed {c : Char} {rest : List Char}
    (shape : (read c rest).shape = .unclosed) : c = '"' := by
  unfold read at shape
  split at shape
  · cases shape
  split at shape
  · cases shape
  split at shape
  · cases shape
  split at shape
  · cases shape
  split at shape
  · assumption
  split at shape
  · rw [readNumber_shape] at shape
    cases shape
  split at shape
  · cases shape
  · rcases readSymbol_shape c rest with ⟨k, h, _⟩ | ⟨h, _⟩
    · rw [h] at shape
      cases shape
    · rw [h] at shape
      cases shape

end Lexeme

namespace Scanner

/-- All tokens held, in order. -/
def held (s : Scanner) : List Token := (s.stretch.tokens ++ s.settled).reverse

/-- The scanner behind a text on the same line that gave some tokens. -/
def past (s : Scanner) (text : List Char) (tokens : List Token) : Scanner :=
  ⟨s.settled, { s.stretch with
    text := text.reverse ++ s.stretch.text, tokens := tokens.reverse ++ s.stretch.tokens },
      s.here.after text⟩

theorem past_past (s : Scanner) (a b : List Char) (ts us : List Token) :
    (s.past a ts).past b us = s.past (a ++ b) (ts ++ us) := by
  simp [past, Position.after_append]

theorem held_past (s : Scanner) (text : List Char) (tokens : List Token) :
    (s.past text tokens).held = s.held ++ tokens := by
  simp [held, past]

theorem push_here (s : Scanner) (kind : Kind) (text : List Char) :
    (s.push kind text).here = s.here.after text := by
  rw [push]
  split <;> rfl

theorem held_push (s : Scanner) (kind : Kind) (text : List Char) : (s.push kind text).held =
    s.held ++ [⟨kind, String.ofList text, s.here, s.here.after text⟩] := by
  unfold push held
  dsimp only
  split <;> simp [Stretch.fresh]

theorem run_lexeme {s : Scanner} {c : Char} {rest : List Char}
    (closed : (Lexeme.read c rest).shape ≠ .unclosed) :
    s.run (c :: rest) = (s.take (Lexeme.read c rest)).run (Lexeme.read c rest).rest := by
  rw [run]
  exact if_neg closed

theorem push_eq_past {s : Scanner} (kind : Kind) {text : List Char} (line : '\n' ∉ text) :
    s.push kind text = s.past text [⟨kind, String.ofList text, s.here, s.here.after text⟩] := by
  rw [push, if_neg line]
  rfl

/-- A text on one line that holds no comment, string or colon pair. -/
structure Plain (text : List Char) : Prop where
  chars : ∀ c ∈ text, c ∉ [';', '"', '\n']
  pairless : ¬[':', ':'] <:+: text

theorem Plain.suffix {front behind : List Char} (h : Plain (front ++ behind)) : Plain behind :=
  ⟨fun c member => h.chars c (List.mem_append_right front member),
    fun pair => h.pairless (pair.trans (List.suffix_append front behind).isInfix)⟩

theorem Plain.head {c : Char} {front : List Char} (h : Plain (c :: front)) :
    c ≠ ';' ∧ c ≠ '"' ∧ c ≠ '\n' := by
  have clean := h.chars c List.mem_cons_self
  simpa using clean

/-- The first lexeme of a plain text is blank or a token. -/
theorem take_plain {c : Char} {front : List Char} (h : Plain (c :: front)) (s : Scanner) :
    ∃ tokens, s.take (Lexeme.read c front) = s.past (Lexeme.read c front).text tokens ∧
      Tiled s.here (Lexeme.read c front).text tokens ∧ ∀ t ∈ tokens, t.kind.isInline = true := by
  obtain ⟨comment, quote, line⟩ := h.head
  have whole := Lexeme.read_append c front
  rcases Lexeme.read_cases c front with
    ⟨shape, one, blank⟩ | ⟨k, shape, eof⟩ | ⟨shape, two⟩ | ⟨shape, _⟩
  · refine ⟨[], ?_, ?_, by simp⟩
    · simp [take, shape, past]
    · rw [one]
      exact .blank (by simpa using blank)
  · have lineless : '\n' ∉ (Lexeme.read c front).text := by
      intro member
      have inside : '\n' ∈ c :: front := whole ▸ List.mem_append_left _ member
      exact h.chars _ inside (by simp)
    refine ⟨[⟨k, String.ofList (Lexeme.read c front).text, s.here,
      s.here.after (Lexeme.read c front).text⟩], ?_, ?_, ?_⟩
    · rw [take, shape]
      exact push_eq_past k lineless
    · exact .single ⟨Lexeme.read_text_ne_nil c front, rfl, rfl, eof, fun _ => rfl⟩
    · intro t member
      rw [List.mem_singleton.mp member]
      exact Lexeme.read_isInline shape line comment
  · rw [two] at whole
    exact absurd (whole ▸ (List.prefix_append _ _).isInfix) h.pairless
  · exact absurd (Lexeme.read_unclosed shape) quote

/-- A plain text before a stop is cut into tokens that tile it. -/
theorem run_plain {stop : Char} (hstop : isStop stop = true) (more : List Char) {text : List Char}
    (h : Plain text) (apart : stop = ':' → ':' ∉ text) (s : Scanner) :
    ∃ tokens, s.run (text ++ stop :: more) = (s.past text tokens).run (stop :: more) ∧
      Tiled s.here text tokens ∧ ∀ t ∈ tokens, t.kind.isInline = true := by
  -- by induction on the length of the text: a lexeme takes a part of it and leaves a shorter one
  induction len : text.length using Nat.strongRecOn generalizing text s with
  | _ n ih =>
      cases text with
      | nil => exact ⟨[], rfl, .blank (by simp), by simp⟩
      | cons c front =>
          obtain ⟨comment, quote, line⟩ := h.head
          have closed : (Lexeme.read c front).shape ≠ .unclosed := fun shape =>
            quote (Lexeme.read_unclosed shape)
          have colon : c = ':' → stop ≠ ':' := by
            rintro rfl same
            exact apart same List.mem_cons_self
          have here := Lexeme.read_stop hstop comment colon closed more
          have shorter := Lexeme.read_rest_length c front
          have whole := Lexeme.read_append c front
          obtain ⟨first, taken, tiled, inline⟩ := take_plain h s
          have behind : Plain (Lexeme.read c front).rest := by
            rw [← whole] at h
            exact h.suffix
          have apart' : stop = ':' → ':' ∉ (Lexeme.read c front).rest := by
            intro same member
            exact apart same (whole ▸ List.mem_append_right _ member)
          obtain ⟨later, ran, tiled', inline'⟩ := ih _ (len ▸ shorter) behind apart'
            (s.past (Lexeme.read c front).text first) rfl
          refine ⟨first ++ later, ?_, ?_, ?_⟩
          · have step : s.run (c :: front ++ stop :: more) = (s.take (Lexeme.read c front)).run
                ((Lexeme.read c front).rest ++ stop :: more) := by
              rw [List.cons_append, run_lexeme (by rw [here]; exact closed), here]
              rfl
            rw [step, taken, ran, past_past, whole]
          · rw [← whole]
            exact tiled.append tiled'
          · intro t member
            rcases List.mem_append.mp member with inFirst | inLater
            · exact inline t inFirst
            · exact inline' t inLater

/-- A trigger without blanks at its ends is kept whole. -/
theorem hotkey_text {s : Stretch} {trigger : List Char} (text : s.text = trigger.reverse)
    (first : trigger.head?.any isBlank = false) (last : trigger.getLast?.any isBlank = false)
    (stop : Position) : (s.hotkey stop).text = String.ofList (trigger ++ [':', ':']) := by
  rw [Stretch.hotkey, text, Text.dropWhile_reverse_of_last last, List.reverse_reverse,
    Text.dropWhile_of_head first]

/-- A trigger and its colons at the start of a line are a hotkey. -/
theorem run_trigger {trigger : List Char} (chars : ∀ c ∈ trigger, c ∉ [':', ';', '"', '\n'])
    (first : trigger.head?.any isBlank = false) (last : trigger.getLast?.any isBlank = false)
    (more : List Char) {s : Scanner} (fresh : s.stretch = .fresh s.here) :
    ∃ (s' : Scanner) (t : Token), s.run (trigger ++ [':', ':'] ++ more) = s'.run more ∧
      s'.here = s.here.after (trigger ++ [':', ':']) ∧ s'.held = s.held ++ [t] ∧ t.kind = .hotkey ∧
      t.text = String.ofList (trigger ++ [':', ':']) := by
  have pairless : ¬[':', ':'] <:+: trigger := by
    intro pair
    exact chars ':' (pair.subset (by simp)) (by simp)
  have plain : Plain trigger := by
    refine ⟨fun c member => ?_, pairless⟩
    have clean := chars c member
    simp only [List.mem_cons, List.not_mem_nil, or_false, not_or] at clean ⊢
    exact clean.2
  have colon : isStop ':' = true := rfl
  obtain ⟨tokens, ran, _, _⟩ :=
    run_plain colon (':' :: more) plain (fun _ member => chars ':' member (by simp)) s
  refine ⟨(s.past trigger tokens).take ⟨.colonPair, [':', ':'], more⟩,
    (s.past trigger tokens).stretch.hotkey ((s.past trigger tokens).here.after [':', ':']), ?_,
    ?_, ?_, rfl, ?_⟩
  · rw [List.append_assoc]
    have pair : Lexeme.read ':' (':' :: more) = ⟨.colonPair, [':', ':'], more⟩ := rfl
    refine ran.trans ?_
    rw [run_lexeme (by rw [pair]; simp), pair]
  · rw [take_here, Position.after_append]
    rfl
  · simp [held, take, past, fresh, Stretch.fresh]
  · exact hotkey_text (by simp [past, fresh, Stretch.fresh]) first last _

end Scanner

end ScriptLens
