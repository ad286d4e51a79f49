import ScriptLens.Proofs.Scan.Prefix

/-!
Scanning line by line. A line feed ends every lexeme and every stretch, so a line that can be
scanned on its own gives the same tokens wherever it stands, moved to its place; the tokens of lines
that follow one another are those of each line in turn.
-/

namespace ScriptLens

/-- The place in a text that stands behind whole lines. -/
def Position.behind (lines : List Char) (p : Position) : Position :=
  ⟨p.line + lines.count '\n', p.column, p.offset + Text.byteLength lines⟩

def Token.behind (lines : List Char) (t : Token) : Token :=
  { t with start := t.start.behind lines, stop := t.stop.behind lines }

@[simp] theorem Token.behind_kind (lines : List Char) (t : Token) :
    (t.behind lines).kind = t.kind :=
  rfl

namespace Position

theorem behind_next (lines : List Char) (p : Position) (c : Char) :
    (p.behind lines).next c = (p.next c).behind lines := by
  unfold next
  split
  · simp only [behind, mk.injEq, true_and]
    omega
  · simp only [behind, mk.injEq, true_and]
    omega

theorem behind_after (lines : List Char) (p : Position) (text : List Char) :
    (p.behind lines).after text = (p.after text).behind lines := by
  induction text generalizing p with
  | nil => rfl
  | cons c text ih => rw [after_cons, after_cons, behind_next, ih]

theorem behind_behind (a b : List Char) (p : Position) :
    (p.behind b).behind a = p.behind (a ++ b) := by
  simp only [behind, List.count_append, Text.byteLength_append, mk.injEq, true_and]
  omega

@[simp] theorem behind_nil (p : Position) : p.behind [] = p := rfl

theorem after_line (p : Position) (text : List Char) :
    (p.after text).line = p.line + text.count '\n' := by
  induction text generalizing p with
  | nil => rfl
  | cons c text ih =>
      rw [after_cons, ih, List.count_cons, next]
      split
      · next feed =>
          subst feed
          simp only [beq_self_eq_true, if_true]
          omega
      · next other => simp [other]

end Position

/-- A text of whole lines: nothing, or one that ends with a line feed. -/
def WholeLines (text : List Char) : Prop := ∀ c ∈ text.getLast?, c = '\n'

theorem wholeLines_nil : WholeLines [] := by
  intro c last
  cases last

theorem wholeLines_append (before front : List Char) :
    WholeLines (before ++ (front ++ ['\n'])) := by
  intro c last
  rw [← List.append_assoc, List.getLast?_append] at last
  exact (Option.some.inj last).symm

/-- Behind whole lines a line begins. -/
theorem WholeLines.start_after {lines : List Char} (h : WholeLines lines) :
    Position.start.after lines = Position.start.behind lines := by
  have line := Position.after_line .start lines
  have offset := Position.after_offset .start lines
  have column : (Position.start.after lines).column = 1 := by
    cases last : lines.getLast? with
    | none =>
        rw [List.getLast?_eq_none_iff.mp last]
        rfl
    | some c =>
        obtain ⟨front, whole⟩ := List.getLast?_eq_some_iff.mp last
        have feed : c = '\n' := h c last
        rw [whole, feed, Position.after_append]
        rfl
  generalize Position.start.after lines = p at *
  obtain ⟨_, _, _⟩ := p
  rw [Position.behind, Position.mk.injEq]
  exact ⟨line, column, offset⟩

namespace Lexeme

/-- A line feed ends every lexeme but an open string. -/
theorem read_feed {c : Char} {front : List Char} (closed : (read c front).shape ≠ .unclosed)
    (more : List Char) : read c (front ++ '\n' :: more) = (read c front).before ('\n' :: more) := by
  by_cases comment : c = ';'
  · subst comment
    have comment :
      ∀ rest, read ';' rest = run (fun _ => .token .comment) [';'] (· != '\n') rest := fun _ => rfl
    rw [comment, comment, run_stop (by decide)]
  · exact read_stop rfl comment (by simp) closed more

theorem read_line {c : Char} {front : List Char}
    (closed : (read c (front ++ ['\n'])).shape ≠ .unclosed)
    (more : List Char) : read c (front ++ '\n' :: more) = (read c front).before ('\n' :: more) := by
  refine read_feed ?_ more
  intro unclosed
  have quote : c = '"' := read_unclosed unclosed
  subst quote
  have missing : front.dropWhile (· != '"') = [] := readString_unclosed unclosed
  have still : (front ++ ['\n']).dropWhile (· != '"') = [] := by
    rw [List.dropWhile_append, missing]
    decide
  apply closed
  change (readString (front ++ ['\n'])).shape = .unclosed
  rw [readString, still]

end Lexeme

namespace Scanner

/-- The scanner moved behind whole lines that gave some tokens, latest first. -/
def behind (lines : List Char) (older : List Token) (s : Scanner) : Scanner :=
  ⟨s.settled.map (Token.behind lines) ++ older, ⟨s.stretch.start.behind lines, s.stretch.text,
    s.stretch.tokens.map (Token.behind lines)⟩, s.here.behind lines⟩

variable {lines : List Char} {older : List Token}

theorem push_behind (s : Scanner) (kind : Kind) (text : List Char) :
    (s.behind lines older).push kind text = (s.push kind text).behind lines older := by
  unfold push
  dsimp only
  split
  · simp [behind, Stretch.fresh, Position.behind_after, Token.behind]
  · simp [behind, Position.behind_after, Token.behind]

theorem hotkey_behind (s : Stretch) (stop : Position) :
    Stretch.hotkey ⟨s.start.behind lines, s.text, s.tokens.map (Token.behind lines)⟩
    (stop.behind lines) = (s.hotkey stop).behind lines := by
  simp [Stretch.hotkey, Token.behind, Position.behind_after]

theorem take_behind (s : Scanner) (lexeme : Lexeme) :
    (s.behind lines older).take lexeme = (s.take lexeme).behind lines older := by
  unfold take
  split
  · exact push_behind s _ _
  · simp [behind, Position.behind_after, ← hotkey_behind]
  · simp [behind, Position.behind_after]
  · simp [behind, Position.behind_after]

/-- Only a line feed gives a line break. -/
theorem take_kinds (s : Scanner) {c : Char} (line : c ≠ '\n') (rest : List Char) :
    ∀ t ∈ (s.take (Lexeme.read c rest)).held, t ∈ s.held ∨ t.kind ≠ .newline := by
  have token : ∀ k, (Lexeme.read c rest).shape = .token k → k ≠ .newline := by
    intro k shape
    by_cases comment : c = ';'
    · subst comment
      have same : Kind.comment = k := Shape.token.inj shape
      rw [← same]
      decide
    · have inline := Lexeme.read_isInline shape line comment
      rintro rfl
      cases inline
  intro t member
  unfold take at member
  split at member
  · next k shape =>
      rw [held_push, List.mem_append, List.mem_singleton] at member
      rcases member with old | rfl
      · exact .inl old
      · exact .inr (token k shape)
  · simp only [held, List.singleton_append, List.reverse_cons, List.mem_append, List.mem_reverse,
      List.mem_singleton] at member ⊢
    rcases member with old | rfl
    · exact .inl (.inr old)
    · exact .inr (by simp [Stretch.hotkey])
  · exact .inl member
  · exact .inl member

/-- The part of a line before its line feed is scanned the same at every place and whatever
follows. -/
theorem run_front {front : List Char} (lineless : '\n' ∉ front) {s : Scanner}
    (clean : (s.run (front ++ ['\n'])).2 = none) :
    ∃ t : Scanner, (∀ lines older more, (s.behind lines older).run (front ++ '\n' :: more) =
        (t.behind lines older).run ('\n' :: more)) ∧
      s.run (front ++ ['\n']) = t.run ['\n'] ∧ ∀ u ∈ t.held, u ∈ s.held ∨ u.kind ≠ .newline := by
  -- by induction on the length of the text: a lexeme takes a part of it and leaves a shorter one
  induction size : front.length using Nat.strongRecOn generalizing front s with
  | _ n ih =>
      cases front with
      | nil => exact ⟨s, fun _ _ _ => rfl, rfl, fun _ member => .inl member⟩
      | cons c front =>
          have closed : (Lexeme.read c (front ++ ['\n'])).shape ≠ .unclosed := by
            intro unclosed
            rw [List.cons_append, run] at clean
            simp only [unclosed, if_true] at clean
            cases clean
          have here := Lexeme.read_line closed
          have shorter := Lexeme.read_rest_length c front
          have whole := Lexeme.read_append c front
          have other : c ≠ '\n' := fun same => lineless (same ▸ List.mem_cons_self)
          have lineless' : '\n' ∉ (Lexeme.read c front).rest :=
            fun member => lineless (whole ▸ List.mem_append_right _ member)
          have closed' : (Lexeme.read c front).shape ≠ .unclosed := by
            rw [here] at closed
            exact closed
          have step : ∀ (u : Scanner) more, u.run (c :: front ++ '\n' :: more) =
              (u.take (Lexeme.read c front)).run ((Lexeme.read c front).rest ++ '\n' :: more) := by
            intro u more
            rw [List.cons_append, run_lexeme (by rw [here]; exact closed'), here]
            rfl
          rw [step] at clean
          obtain ⟨t, moved, same, kinds⟩ := ih _ (size ▸ shorter) lineless' clean rfl
          refine ⟨t, ?_, ?_, ?_⟩
          · intro lines older more
            rw [step, take_behind, moved]
          · rw [step, same]
          · intro u member
            rcases kinds u member with old | fresh
            · exact take_kinds s other front u old
            · exact .inr fresh

/-- The scanner at the start of a line, behind a text that gave some tokens, latest first. -/
def atLine (older : List Token) (before : List Char) : Scanner :=
  ⟨older, .fresh (Position.start.after before), Position.start.after before⟩

theorem initial_behind {before : List Char} (h : WholeLines before) :
    initial.behind before older = atLine older before := by
  rw [atLine, h.start_after]
  rfl

end Scanner

/-- The tokens of a line, all but the end mark. -/
def lineTokens (line : String) : List Token := (scan line).tokens.dropLast

theorem lineTokens_eq (line : String) :
    lineTokens line = (Scanner.initial.run line.toList).1.held :=
  List.dropLast_concat

/-- A line, a text that ends with its only line feed, that can be scanned on its own. -/
structure Lexes (line : String) : Prop where
  ends : ∃ front, line.toList = front ++ ['\n'] ∧ '\n' ∉ front
  clean : (scan line).fault = none

/-- A line gives its tokens at every place, and only the last of them is a line break. -/
theorem Lexes.run {line : String} (h : Lexes line) : (∀ before older more, WholeLines before →
      (Scanner.atLine older before).run (line.toList ++ more) =
      (Scanner.atLine (((lineTokens line).map (Token.behind before)).reverse ++ older)
        (before ++ line.toList)).run more) ∧ ∃ (core : List Token) (final : Token),
      lineTokens line = core ++ [final] ∧ final.kind = .newline ∧
        ∀ t ∈ core, t.kind ≠ .newline := by
  obtain ⟨front, whole, lineless⟩ := h.ends
  have clean : (Scanner.initial.run (front ++ ['\n'])).2 = none := by
    rw [← whole]
    exact h.clean
  obtain ⟨t, moved, same, kinds⟩ := Scanner.run_front lineless clean
  have feed : ∀ (u : Scanner) more, u.run ('\n' :: more) = (u.push .newline ['\n']).run more :=
    fun u more => Scanner.run_lexeme (by simp [Lexeme.read, isBlank])
  have ended : Scanner.initial.run line.toList = (t.push .newline ['\n'], none) := by
    rw [whole, same, feed, Scanner.run]
  have held : lineTokens line = (t.push .newline ['\n']).held := by
    rw [lineTokens, scan, ended]
    exact List.dropLast_concat
  have pushed := Scanner.held_push t .newline ['\n']
  constructor
  · intro before older more lines
    have here : t.here.after ['\n'] = Position.start.after line.toList := by
      have holds := Scanner.initial_holds.run line.toList (by rw [ended])
      rw [ended, List.nil_append] at holds
      rw [← Scanner.push_here t .newline]
      exact holds.here
    have behind : Scanner.behind before older (t.push .newline ['\n']) =
        Scanner.atLine (((lineTokens line).map (Token.behind before)).reverse ++ older)
        (before ++ line.toList) := by
      have last := wholeLines_append before front
      rw [← whole] at last
      have place : (Position.start.after line.toList).behind before =
          Position.start.after (before ++ line.toList) := by
        rw [Position.after_append, lines.start_after, Position.behind_after]
      rw [held, Scanner.atLine, ← place, ← here]
      simp [Scanner.push, Scanner.behind, Scanner.held, Stretch.fresh]
    rw [whole, List.append_assoc, List.singleton_append, ← Scanner.initial_behind lines, moved,
      feed, Scanner.push_behind, behind, whole]
  · refine ⟨t.held, ⟨.newline, String.ofList ['\n'], t.here, t.here.after ['\n']⟩, ?_, rfl, ?_⟩
    · rw [held, pushed]
    · intro u member
      rcases kinds u member with old | other
      · cases old
      · exact other

/-- The tokens of lines behind a text, each line's at its place. -/
def placedTokens (before : List Char) : List String → List Token
  | [] => []
  | line :: rest => (lineTokens line).map (Token.behind before) ++ placedTokens
      (before ++ line.toList) rest

theorem placedTokens_append (before : List Char) (a b : List String) :
    placedTokens before (a ++ b) =
    placedTokens before a ++ placedTokens (before ++ a.flatMap String.toList) b := by
  induction a generalizing before with
  | nil => simp [placedTokens]
  | cons line a ih => simp [placedTokens, ih]

theorem run_lines {lines : List String} (h : ∀ line ∈ lines, Lexes line) {before : List Char}
    (whole : WholeLines before) (older : List Token) :
    (Scanner.atLine older before).run (lines.flatMap String.toList) =
      (Scanner.atLine ((placedTokens before lines).reverse ++ older)
        (before ++ lines.flatMap String.toList), none) := by
  induction lines generalizing before older with
  | nil =>
      rw [List.flatMap_nil, Scanner.run, List.append_nil]
      rfl
  | cons line rest ih =>
      have lexes := h line List.mem_cons_self
      have next : WholeLines (before ++ line.toList) := by
        obtain ⟨front, ends, _⟩ := lexes.ends
        rw [ends]
        exact wholeLines_append before front
      have later := ih (fun l member => h l (List.mem_cons_of_mem line member)) next
      rw [List.flatMap_cons, lexes.run.1 before older _ whole, later]
      simp [placedTokens]

/-- Lines that can be scanned on their own can be scanned together. -/
theorem tokenize_join {lines : List String} (h : ∀ line ∈ lines, Lexes line) : ∃ final : Token,
    final.kind = .eof ∧ tokenize (String.join lines) = .ok (placedTokens [] lines ++ [final]) := by
  have run := run_lines h wholeLines_nil []
  have start : Scanner.atLine [] [] = Scanner.initial := rfl
  refine ⟨⟨.eof, "", Position.start.after (lines.flatMap String.toList),
    Position.start.after (lines.flatMap String.toList)⟩, rfl, ?_⟩
  rw [tokenize, scan, String.toList_join, ← start, run]
  simp [Scanner.tokens, Scanner.atLine, Stretch.fresh]

end ScriptLens
