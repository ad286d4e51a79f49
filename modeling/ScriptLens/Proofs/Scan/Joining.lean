import ScriptLens.Proofs.Scan.Lines

/-!
Two texts joined by a line feed. If the first can be scanned on its own, the line feed ends its last
lexeme and its last stretch, so the scan goes on as at the start of a script: the second text gives
the tokens, and the fault, that it gives on its own, moved to its place.
-/

namespace ScriptLens

def LexError.behind (lines : List Char) : LexError → LexError
  | unterminatedString opened => unterminatedString (opened.behind lines)

/-- The line break behind a text. -/
def feedBehind (text : List Char) : Token :=
  ⟨.newline, "\n", Position.start.after text, Position.start.after (text ++ ['\n'])⟩

namespace Scanner

variable {lines : List Char} {older : List Token}

/-- A run is the same behind whole lines, at its place. -/
theorem run_behind (s : Scanner) (text : List Char) : (s.behind lines older).run text =
    ((s.run text).1.behind lines older, (s.run text).2.map (LexError.behind lines)) := by
  fun_induction Scanner.run s text with
  | case1 s => exact run_nil _
  | case2 s c rest lexeme shape =>
      rw [Scanner.run, if_pos shape, take_behind]
      rfl
  | case3 s c rest lexeme shape ih => rw [Scanner.run, if_neg shape, take_behind, ih]

theorem tokens_behind (s : Scanner) :
    (s.behind lines older).tokens = older.reverse ++ s.tokens.map (Token.behind lines) := by
  simp [tokens, behind, Token.behind]

theorem tokens_eq (s : Scanner) : s.tokens = s.held ++ [⟨.eof, "", s.here, s.here⟩] := rfl

/-- A text without a fault is read the same up to a line feed, which then is a token. -/
theorem run_feed {s : Scanner} {front : List Char} (clean : (s.run front).2 = none)
    (more : List Char) :
    s.run (front ++ '\n' :: more) = ((s.run front).1.push .newline ['\n']).run more := by
  fun_induction Scanner.run s front with
  | case1 s => exact run_lexeme (by simp [Lexeme.read, isBlank])
  | case2 s c rest lexeme shape => cases clean
  | case3 s c rest lexeme shape ih =>
      have here := Lexeme.read_feed shape more
      rw [← ih clean, List.cons_append, run_lexeme (by rw [here]; exact shape), here]
      rfl

/-- Behind the line feed a script begins. -/
theorem push_feed (s : Scanner) {text : List Char} (here : s.here = Position.start.after text) :
    s.push .newline ['\n'] =
    initial.behind (text ++ ['\n']) (feedBehind text :: s.held.reverse) := by
  have stop : s.here.after ['\n'] = Position.start.after (text ++ ['\n']) := by
    rw [Position.after_append, ← here]
  have lines : WholeLines (text ++ ['\n']) := wholeLines_append [] text
  rw [initial_behind lines, atLine, feedBehind, ← here, ← stop]
  simp [push, held]

/-- A text without a fault, a line feed and what follows it. -/
theorem run_initial_feed {a : List Char} (clean : (initial.run a).2 = none) (b : List Char) :
    initial.run (a ++ '\n' :: b) =
      ((initial.run b).1.behind (a ++ ['\n']) (feedBehind a :: (initial.run a).1.held.reverse),
        (initial.run b).2.map (LexError.behind (a ++ ['\n']))) := by
  have here : (initial.run a).1.here = Position.start.after a := run_here _ _
  rw [run_feed clean, push_feed _ here, run_behind]

end Scanner

/-- The end mark stands behind the whole text. -/
theorem scan_tokens (source : String) : (scan source).tokens = lineTokens source ++
    [⟨.eof, "", Position.start.after source.toList, Position.start.after source.toList⟩] := by
  have here : (Scanner.initial.run source.toList).1.here = Position.start.after source.toList :=
    Scanner.run_here _ _
  have same : (scan source).tokens = (Scanner.initial.run source.toList).1.tokens := rfl
  rw [lineTokens_eq, same, Scanner.tokens_eq, here]

/-- The tokens of a text without its end mark, a line break, and the tokens of the text behind
it. -/
theorem scan_feed {a : String} (clean : (scan a).fault = none) (b : String) :
    scan (a ++ "\n" ++ b) =
    ⟨lineTokens a ++ feedBehind a.toList :: (scan b).tokens.map (Token.behind (a.toList ++ ['\n'])),
      (scan b).fault.map (LexError.behind (a.toList ++ ['\n']))⟩ := by
  have whole : (a ++ "\n" ++ b).toList = a.toList ++ '\n' :: b.toList := by simp
  rw [scan, whole, Scanner.run_initial_feed clean, lineTokens_eq]
  simp [Scanner.tokens_behind, scan]

theorem fault_of_tokenize {source : String} {tokens : List Token}
    (h : tokenize source = .ok tokens) :
    (scan source).fault = none ∧ (scan source).tokens = tokens := by
  unfold tokenize at h
  dsimp only at h
  split at h
  · next clean =>
      cases h
      exact ⟨clean, rfl⟩
  · cases h

/-- Scanning takes a line feed between two texts to a line break between their tokens: the tokens of
the first text without its end mark, the line break where that stood, and the tokens of the second
text with their lines and offsets moved on by those of the first. The fault of the second text, if
any, is moved alike. -/
theorem scan_join (a b : String) {tokens : List Token} (h : tokenize a = .ok tokens) :
    ∃ front final, tokens = front ++ [final] ∧ final.kind = .eof ∧ scan (a ++ "\n" ++ b) =
      ⟨front ++ ⟨.newline, "\n", final.start, final.start.next '\n'⟩ ::
        (scan b).tokens.map (Token.behind (a.toList ++ ['\n'])),
        (scan b).fault.map (LexError.behind (a.toList ++ ['\n']))⟩ := by
  obtain ⟨clean, rfl⟩ := fault_of_tokenize h
  refine ⟨_, _, scan_tokens a, rfl, ?_⟩
  rw [scan_feed clean, feedBehind, Position.after_append]
  rfl

/-- A string over two lines and a comment before the line feed, a hotkey and an open string behind
it. -/
theorem scan_join_open_string : ∃ tokens front final, tokenize "s := \"é\nb\" ; c" = .ok tokens ∧
    tokens = front ++ [final] ∧
    final.kind = .eof ∧ scan ("s := \"é\nb\" ; c" ++ "\n" ++ " ^j::f(\"") =
      ⟨front ++ ⟨.newline, "\n", final.start, final.start.next '\n'⟩ ::
        (scan " ^j::f(\"").tokens.map (Token.behind ("s := \"é\nb\" ; c".toList ++ ['\n'])),
        some (.unterminatedString ⟨3, 8, 23⟩)⟩ := by
  have h : (tokenize "s := \"é\nb\" ; c").toOption.isSome = true := by decide +kernel
  have fault :
      (scan " ^j::f(\"").fault.map (LexError.behind ("s := \"é\nb\" ; c".toList ++ ['\n'])) =
      some (.unterminatedString ⟨3, 8, 23⟩) := by decide +kernel
  cases read : tokenize "s := \"é\nb\" ; c" with
  | error e =>
      rw [read] at h
      cases h
  | ok tokens =>
      obtain ⟨front, final, ends, eof, joined⟩ := scan_join _ " ^j::f(\"" read
      rw [fault] at joined
      exact ⟨tokens, front, final, rfl, ends, eof, joined⟩

end ScriptLens
