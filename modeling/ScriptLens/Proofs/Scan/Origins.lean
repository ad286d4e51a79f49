import ScriptLens.Proofs.Scan.Places

/-!
Where the tokens of a scan come from: each is a lexeme of the script, or a hotkey over whole lexemes
of its line. A comment reaches to the end of its line, so only a line break or the end mark stands
behind it.
-/

namespace ScriptLens

namespace Text

/-- A text is cut in two in one way at a number of bytes. -/
theorem append_inj_of_byteLength {a b c d : List Char} (same : a ++ b = c ++ d)
    (size : byteLength a = byteLength c) : a = c ∧ b = d := by
  have front := takeBytes?_append a b
  have behind := dropBytes?_append a b
  rw [same, size] at front behind
  rw [takeBytes?_append] at front
  rw [dropBytes?_append] at behind
  exact ⟨(Option.some.inj front).symm, (Option.some.inj behind).symm⟩

end Text

namespace Lexeme

theorem read_head (c : Char) (rest : List Char) : ∃ tail, (read c rest).text = c :: tail := by
  have whole := read_append c rest
  cases text : (read c rest).text with
  | nil => exact absurd text (read_text_ne_nil c rest)
  | cons d tail =>
      rw [text] at whole
      exact ⟨tail, congrArg (· :: tail) (List.cons.inj whole).1⟩

/-- A line break is a token of its own. -/
theorem read_newline (rest : List Char) : read '\n' rest = ⟨.token .newline, ['\n'], rest⟩ := rfl

/-- A comment holds no line feed and stops at one or at the end. -/
theorem read_comment (rest : List Char) : (read ';' rest).shape = .token .comment ∧
    '\n' ∉ (read ';' rest).text ∧ ∀ d ∈ (read ';' rest).rest.head?, d = '\n' := by
  refine ⟨rfl, ?_, ?_⟩
  · intro member
    change '\n' ∈ ';' :: rest.takeWhile (· != '\n') at member
    rcases List.mem_cons.mp member with first | later
    · exact absurd first (by decide)
    · exact absurd (List.mem_takeWhile_imp later) (by decide)
  · exact fun d first => Text.dropWhile_ne_stops first

end Lexeme

/-- A text read as whole lexemes of one line, none of them a comment, up to what follows. -/
inductive OneLine : List Char → List Char → Prop
  | nil {behind} : OneLine [] behind
  | lexeme {c rest text behind} : (Lexeme.read c rest).shape ≠ .unclosed → c ≠ ';' →
      '\n' ∉ (Lexeme.read c rest).text → (Lexeme.read c rest).rest = text ++ behind →
      OneLine text behind → OneLine ((Lexeme.read c rest).text ++ text) behind

namespace OneLine

theorem snoc {text : List Char} {c : Char} {rest : List Char} (h : OneLine text (c :: rest))
    (closed : (Lexeme.read c rest).shape ≠ .unclosed)
    (comment : c ≠ ';') (line : '\n' ∉ (Lexeme.read c rest).text) :
    OneLine (text ++ (Lexeme.read c rest).text) (Lexeme.read c rest).rest := by
  generalize ahead : c :: rest = behind at h
  induction h with
  | nil => simpa using OneLine.lexeme closed comment line rfl .nil
  | @lexeme d more text behind closed' comment' line' next tail ih =>
      subst ahead
      rw [List.append_assoc]
      refine .lexeme closed' comment' line' ?_ (ih rfl)
      rw [next, List.append_assoc, Lexeme.read_append]

/-- Blanks at the start are lexemes of their own. -/
theorem trimmed {text behind : List Char} (h : OneLine text behind) :
    OneLine (text.dropWhile isBlank) behind := by
  induction h with
  | nil => exact .nil
  | @lexeme c rest text behind closed comment line next tail ih =>
      by_cases blank : isBlank c = true
      · have one : (Lexeme.read c rest).text = [c] := by rw [Lexeme.read, if_pos blank]
        rw [one, List.singleton_append, List.dropWhile_cons_of_pos blank]
        exact ih
      · obtain ⟨more, first⟩ := Lexeme.read_head c rest
        have kept : ((Lexeme.read c rest).text ++ text).dropWhile isBlank =
            (Lexeme.read c rest).text ++ text := by
          rw [first, List.cons_append, List.dropWhile_cons_of_neg blank]
        rw [kept]
        exact .lexeme closed comment line next tail

theorem free {text behind : List Char} (h : OneLine text behind) : '\n' ∉ text := by
  induction h with
  | nil => exact List.not_mem_nil
  | lexeme closed comment line next tail ih =>
      rw [List.mem_append, not_or]
      exact ⟨line, ih⟩

end OneLine

namespace Token

/-- What the characters of a token were read as. -/
inductive Reads (t : Token) (body behind : List Char) : Prop
  | lexeme {c rest} : body ++ behind = c :: rest →
      Lexeme.read c rest = ⟨.token t.kind, body, behind⟩ → Reads t body behind
  | hotkey : t.kind = .hotkey → OneLine body behind → Reads t body behind

/-- The token was read at its place in a script. -/
def Origin (source : List Char) (t : Token) : Prop :=
  ∃ before body behind, source = before ++ (body ++ behind) ∧
    t.Covers (Position.start.after before) body ∧ t.Reads body behind

/-- A token covers the characters at its place, and these were read as it. -/
theorem Origin.reads {before body behind : List Char} {t : Token}
    (h : t.Origin (before ++ (body ++ behind)))
    (covers : t.Covers (Position.start.after before) body) : t.Reads body behind := by
  obtain ⟨before', body', behind', same, covers', reads⟩ := h
  have start := congrArg Position.offset (covers.start.symm.trans covers'.start)
  have stop := congrArg Position.offset (covers.stop.symm.trans covers'.stop)
  simp only [Position.after_offset] at start stop
  obtain ⟨rfl, rest⟩ := Text.append_inj_of_byteLength same (by omega)
  obtain ⟨rfl, rfl⟩ := Text.append_inj_of_byteLength rest (by omega)
  exact reads

namespace Reads

variable {t : Token} {body behind : List Char}

/-- The kind of a token that is no hotkey, read from its first character. -/
theorem first (h : t.Reads body behind) (other : t.kind ≠ .hotkey) :
    ∃ c rest, body ++ behind = c :: rest ∧ Lexeme.read c rest = ⟨.token t.kind, body, behind⟩ := by
  cases h with
  | lexeme ahead read => exact ⟨_, _, ahead, read⟩
  | hotkey kind line => exact absurd kind other

theorem newline (h : t.Reads body behind) (kind : t.kind = .newline) : body = ['\n'] := by
  obtain ⟨c, rest, ahead, read⟩ := h.first (by rw [kind]; decide)
  rw [kind] at read
  have shape : (Lexeme.read c rest).shape = .token .newline := congrArg Lexeme.shape read
  by_cases feed : c = '\n'
  · subst feed
    exact (congrArg Lexeme.text read).symm
  · by_cases comment : c = ';'
    · subst comment
      cases (Lexeme.read_comment rest).1.symm.trans shape
    · cases Lexeme.read_isInline shape feed comment

theorem comment (h : t.Reads body behind) (kind : t.kind = .comment) :
    body.head? = some ';' ∧ '\n' ∉ body ∧ ∀ d ∈ behind.head?, d = '\n' := by
  obtain ⟨c, rest, ahead, read⟩ := h.first (by rw [kind]; decide)
  rw [kind] at read
  have shape : (Lexeme.read c rest).shape = .token .comment := congrArg Lexeme.shape read
  have semicolon : c = ';' := by
    by_contra other
    by_cases feed : c = '\n'
    · subst feed
      cases shape
    · cases Lexeme.read_isInline shape feed other
  subst semicolon
  obtain ⟨_, free, stops⟩ := Lexeme.read_comment rest
  have text : (Lexeme.read ';' rest).text = body := congrArg Lexeme.text read
  rw [← text]
  refine ⟨rfl, free, ?_⟩
  rw [read] at stops
  exact stops

/-- What starts with a line feed is a line break. -/
theorem feed {rest : List Char} (h : t.Reads ('\n' :: rest) behind) : t.kind = .newline := by
  cases h with
  | lexeme ahead read =>
      obtain ⟨rfl, rfl⟩ := List.cons.inj ahead
      rw [Lexeme.read_newline] at read
      exact (Shape.token.inj (congrArg Lexeme.shape read)).symm
  | hotkey kind line => exact absurd List.mem_cons_self line.free

end Reads

end Token

namespace Scanner

/-- Every token held was read at its place, and a colon pair next would claim whole lexemes. -/
structure Sourced (s : Scanner) (text behind : List Char) : Prop where
  holds : s.Holds text
  origins : ∀ t ∈ s.held, t.Origin (text ++ behind)
  line : OneLine s.stretch.text.reverse behind ∨ ∀ d ∈ behind.head?, d = '\n'

theorem initial_sourced (source : List Char) : initial.Sourced [] source :=
  ⟨initial_holds, by simp [held, initial, Stretch.fresh], .inl .nil⟩

variable {s : Scanner} {text : List Char} {c : Char} {rest : List Char}

/-- A lexeme inside the line extends it. -/
theorem Sourced.extend (h : s.Sourced text (c :: rest))
    (closed : (Lexeme.read c rest).shape ≠ .unclosed)
    (comment : c ≠ ';') (line : '\n' ∉ (Lexeme.read c rest).text) :
    OneLine (s.stretch.text.reverse ++ (Lexeme.read c rest).text) (Lexeme.read c rest).rest := by
  rcases h.line with strung | feed
  · exact strung.snoc closed comment line
  · have same : c = '\n' := feed c rfl
    subst same
    exact absurd List.mem_cons_self line

theorem Sourced.push (h : s.Sourced text (c :: rest)) {k : Kind}
    (shape : (Lexeme.read c rest).shape = .token k) (eof : k ≠ .eof) :
    (s.push k (Lexeme.read c rest).text).Sourced (text ++ (Lexeme.read c rest).text)
    (Lexeme.read c rest).rest := by
  have nonempty := Lexeme.read_text_ne_nil c rest
  have whole := Lexeme.read_append c rest
  refine ⟨h.holds.push nonempty eof, ?_, ?_⟩
  · rw [List.append_assoc, whole]
    intro t member
    rw [held_push, List.mem_append, List.mem_singleton] at member
    rcases member with old | rfl
    · exact h.origins t old
    · refine ⟨text, (Lexeme.read c rest).text, (Lexeme.read c rest).rest, by rw [whole], ?_,
        .lexeme whole ?_⟩
      · exact ⟨nonempty, h.holds.here,
          congrArg (Position.after · (Lexeme.read c rest).text) h.holds.here, eof, fun _ => rfl⟩
      · rw [← shape]
  · unfold Scanner.push
    dsimp only
    split
    · exact .inl .nil
    · next line =>
        by_cases comment : c = ';'
        · subst comment
          exact .inr (Lexeme.read_comment rest).2.2
        · left
          simpa using h.extend (by rw [shape]; simp) comment line

theorem Sourced.colonPair (h : s.Sourced text (c :: rest))
    (shape : (Lexeme.read c rest).shape = .colonPair)
    (two : (Lexeme.read c rest).text = [':', ':']) : (s.take (Lexeme.read c rest)).Sourced
    (text ++ (Lexeme.read c rest).text) (Lexeme.read c rest).rest := by
  have closed : (Lexeme.read c rest).shape ≠ .unclosed := by rw [shape]; decide
  have comment : c ≠ ';' := by
    rintro rfl
    cases (Lexeme.read_comment rest).1.symm.trans shape
  have extended := h.extend closed comment (by rw [two]; decide)
  have covers := h.holds.hotkey_covers
  obtain ⟨older, parts, _, start⟩ := h.holds.parts
  have whole : c :: rest = [':', ':'] ++ (Lexeme.read c rest).rest := by
    rw [← two, Lexeme.read_append]
  refine ⟨h.holds.take c rest closed, ?_, ?_⟩
  · rw [List.append_assoc, Lexeme.read_append]
    intro t member
    simp only [held, take, shape, List.singleton_append, List.reverse_cons, List.mem_append,
      List.mem_reverse, List.mem_singleton] at member
    rcases member with old | rfl
    · exact h.origins t (by simp [held, old])
    · refine ⟨older ++ s.stretch.text.reverse.takeWhile isBlank, s.stretch.text.reverse.dropWhile
        isBlank ++ [':', ':'], (Lexeme.read c rest).rest, ?_, ?_, .hotkey rfl ?_⟩
      · rw [parts, whole]
        conv_lhs =>
          rw [← List.takeWhile_append_dropWhile (p := isBlank) (l := s.stretch.text.reverse)]
        simp only [List.append_assoc]
      · rw [two, Position.after_append, ← start]
        exact covers
      · have strung := extended.trimmed
        rw [two, List.dropWhile_append] at strung
        split at strung
        · next blank =>
            rw [List.isEmpty_iff.mp blank]
            exact strung
        · exact strung
  · left
    simpa [take, shape] using extended

/-- One lexeme more keeps the places of the tokens. -/
theorem Sourced.take (h : s.Sourced text (c :: rest))
    (closed : (Lexeme.read c rest).shape ≠ .unclosed) : (s.take (Lexeme.read c rest)).Sourced
    (text ++ (Lexeme.read c rest).text) (Lexeme.read c rest).rest := by
  rcases Lexeme.read_cases c rest with
    ⟨shape, one, blank⟩ | ⟨k, shape, eof⟩ | ⟨shape, two⟩ | ⟨shape, _⟩
  · refine ⟨h.holds.take c rest closed, ?_, ?_⟩
    · rw [List.append_assoc, Lexeme.read_append]
      simpa [Scanner.take, shape, held] using h.origins
    · have comment : c ≠ ';' := by
        rintro rfl
        cases blank
      have line : '\n' ∉ (Lexeme.read c rest).text := by
        rw [one, List.mem_singleton]
        rintro rfl
        cases blank
      left
      simpa [Scanner.take, shape] using h.extend closed comment line
  · simp only [Scanner.take, shape]
    exact h.push shape eof
  · exact h.colonPair shape two
  · exact absurd shape closed

/-- Every token held after a run was read at its place, also where a string never closes. -/
theorem Sourced.run {more : List Char} (h : s.Sourced text more) :
    ∀ t ∈ (s.run more).1.held, t.Origin (text ++ more) := by
  fun_induction Scanner.run s more generalizing text with
  | case1 s => exact h.origins
  | case2 s c rest lexeme =>
      rename_i shape
      simpa [held, Scanner.take, shape] using h.origins
  | case3 s c rest lexeme closed =>
      rename_i ih
      have whole := ih (h.take closed)
      rw [List.append_assoc, Lexeme.read_append] at whole
      exact whole

end Scanner

/-- Every token of a scan but the end mark was read at its place. -/
theorem lineTokens_origin (source : String) : ∀ t ∈ lineTokens source, t.Origin source.toList := by
  rw [lineTokens_eq]
  exact (Scanner.initial_sourced source.toList).run

end ScriptLens
