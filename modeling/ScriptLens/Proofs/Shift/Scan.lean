import ScriptLens.Proofs.Scan.Origins
import ScriptLens.Proofs.Scan.Lines
import ScriptLens.Proofs.Shift.Places
import Mathlib.Algebra.GroupWithZero.Nat
import Mathlib.Algebra.Order.BigOperators.Group.List
import Mathlib.Algebra.Order.Group.Nat
import Mathlib.Data.List.Forall2

/-!
Two scanners that read the same lexemes at shifted places. The second one may read more: blanks and
comments at the ends of lines, and tokens that do not count. Up to such an end both stand at the
same character; from there on only the lines agree, until a line feed brings them together again.
-/

namespace ScriptLens

namespace Shift

/-- Pieces put into a text: for each one the offset before which it is put, and its length. -/
def insert (gaps : List (Nat × Nat)) : Shift where
  offset n := n + ((gaps.filter fun gap => gap.1 < n).map Prod.snd).sum
  strict := by
    intro m n less
    have more : ((gaps.filter fun gap => gap.1 < m).map Prod.snd).sum ≤
        ((gaps.filter fun gap => gap.1 < n).map Prod.snd).sum := by
      refine List.Sublist.sum_le_sum
        (List.Sublist.map Prod.snd (List.monotone_filter_right gaps fun gap before => ?_))
        fun _ _ => Nat.zero_le _
      simp only [decide_eq_true_eq] at before ⊢
      omega
    omega

/-- An offset moves by what was put in before it. -/
theorem insert_offset {done later : List (Nat × Nat)} {n : Nat} (before : ∀ gap ∈ done, gap.1 < n)
    (behind : ∀ gap ∈ later, n ≤ gap.1) :
    (insert (done ++ later)).offset n = n + (done.map Prod.snd).sum := by
  have all : (done.filter fun gap => gap.1 < n) = done :=
      List.filter_eq_self.mpr fun gap member => by
    simpa using before gap member
  have none : (later.filter fun gap => gap.1 < n) = [] :=
      List.filter_eq_nil_iff.mpr fun gap member => by
    simpa using behind gap member
  simp only [insert, List.filter_append, all, none, List.append_nil]

variable (σ : Shift)

theorem add_le (n k : Nat) : σ.offset n + k ≤ σ.offset (n + k) := by
  induction k with
  | zero => exact Nat.le_refl _
  | succ k ih =>
      have next : σ.offset (n + k) < σ.offset (n + (k + 1)) := σ.strict (Nat.lt_succ_self _)
      omega

/-- Between two offsets that moved alike all offsets did. -/
theorem between {n j k : Nat} (inside : j ≤ k) (ends : σ.offset (n + k) = σ.offset n + k) :
    σ.offset (n + j) = σ.offset n + j := by
  have first := σ.add_le n j
  have second := σ.add_le (n + j) (k - j)
  rw [Nat.add_assoc, Nat.add_sub_cancel' inside] at second
  omega

end Shift

namespace Position

variable {σ : Shift} {p : Position}

theorem line_of_shift {q : Position} (h : q = p.shift σ) : q.line = p.line := by
  rw [h]
  rfl

/-- Lines and columns count on from a shifted place as from the place itself. -/
theorem after_of_shift {p q : Position} (text : List Char) (line : q.line = p.line)
    (column : q.column = p.column) : q.after text =
    ⟨(p.after text).line, (p.after text).column, q.offset + Text.byteLength text⟩ := by
  induction text generalizing p q with
  | nil =>
      rw [after_nil, after_nil, ← line, ← column]
      rfl
  | cons c text ih =>
      rw [after_cons, after_cons, ih (p := p.next c) (q := q.next c), next_offset,
        Text.byteLength_cons, Nat.add_assoc]
      · rw [next, next, line]
        split <;> rfl
      · rw [next, next, column]
        split <;> rfl

/-- A text whose ends were moved alike was moved as a whole. -/
theorem after_shift {front back : List Char}
    (ends : (p.shift σ).after (front ++ back) = (p.after (front ++ back)).shift σ) :
    (p.shift σ).after front = (p.after front).shift σ := by
  have offsets := congrArg Position.offset ends
  rw [after_offset, shift, shift, after_offset, Text.byteLength_append] at offsets
  have moved :=
    σ.between (Nat.le_add_right (Text.byteLength front) (Text.byteLength back)) offsets.symm
  rw [after_of_shift (p := p) (q := p.shift σ) front rfl rfl]
  simp only [shift, after_offset, moved]

end Position

namespace Lexeme

theorem read_semicolon (rest : List Char) : read ';' rest =
    ⟨.token .comment, ';' :: rest.takeWhile (· != '\n'), rest.dropWhile (· != '\n')⟩ :=
  rfl

variable {line : List Char} (free : '\n' ∉ line)

include free in
theorem inside_line : ∀ c ∈ line, (c != '\n') = true :=
  fun _ member => bne_iff_ne.mpr fun feed => free (feed ▸ member)

include free in
/-- A comment up to a line feed. -/
theorem read_comment_feed (more : List Char) :
    read ';' (line ++ '\n' :: more) = ⟨.token .comment, ';' :: line, '\n' :: more⟩ := by
  rw [read_semicolon, List.takeWhile_append_of_pos (inside_line free),
    List.dropWhile_append_of_pos (inside_line free),
    List.takeWhile_cons_of_neg (by decide), List.dropWhile_cons_of_neg (by decide), List.append_nil]

include free in
/-- A comment up to the end of the text. -/
theorem read_comment_end : read ';' line = ⟨.token .comment, ';' :: line, []⟩ := by
  rw [read_semicolon, List.takeWhile_eq_self_iff.mpr (inside_line free),
    List.dropWhile_eq_nil_iff.mpr (inside_line free)]

end Lexeme

namespace Scanner

theorem run_newline (s : Scanner) (text : List Char) :
    s.run ('\n' :: text) = (s.push .newline ['\n']).run text := by
  rw [run_lexeme (by rw [Lexeme.read_newline]; simp)]
  rfl

/-- A comment and the line feed behind it. -/
theorem run_comment (s : Scanner) {line : List Char} (free : '\n' ∉ line) (more : List Char) :
    s.run (';' :: (line ++ '\n' :: more)) =
    ((s.push .comment (';' :: line)).push .newline ['\n']).run more := by
  rw [run_lexeme (by rw [Lexeme.read_comment_feed free]; simp),
    Lexeme.read_comment_feed free, run_newline]
  rfl

/-- A comment at the end of a text. -/
theorem run_comment_end (s : Scanner) {line : List Char} (free : '\n' ∉ line) :
    s.run (';' :: line) = (s.push .comment (';' :: line), none) := by
  rw [run_lexeme (by rw [Lexeme.read_comment_end free]; simp),
    Lexeme.read_comment_end free, run_nil]
  rfl

/-- Two scanners that hold the same tokens up to a shift, those of the second one that do not count
left out. -/
structure Abreast (σ : Shift) (counts : Kind → Bool) (a b : Scanner) : Prop where
  settled : List.Forall₂ (Token.Shifted σ) a.settled (b.settled.filter (counts ·.kind))
  held : List.Forall₂ (Token.Shifted σ) a.stretch.tokens (b.stretch.tokens.filter (counts ·.kind))
  line : b.here.line = a.here.line

/-- Two scanners that stand at the same character. -/
structure Level (σ : Shift) (counts : Kind → Bool) (a b : Scanner) :
    Prop extends Abreast σ counts a b where
  here : b.here = a.here.shift σ
  start : b.stretch.start = a.stretch.start.shift σ
  text : b.stretch.text = a.stretch.text
  reached : a.stretch.start.after a.stretch.text.reverse = a.here
  reached' : b.stretch.start.after b.stretch.text.reverse = b.here

variable {σ : Shift} {counts : Kind → Bool} {a b : Scanner}

theorem initial_level (origin : σ.offset 0 = 0) : Level σ counts initial initial := by
  have start : Position.start = Position.start.shift σ := by
    rw [Position.shift, Position.start, origin]
  exact ⟨⟨.nil, .nil, rfl⟩, start, start, rfl, rfl, rfl⟩

namespace Abreast

/-- All tokens of both scanners, the end marks last. -/
theorem tokens (h : Abreast σ counts a b) (last : counts .eof = true) :
    List.Forall₂ (Token.Shifted σ) a.tokens (b.tokens.filter (counts ·.kind)) := by
  have final : Token.Shifted σ ⟨.eof, "", a.here, a.here⟩ ⟨.eof, "", b.here, b.here⟩ :=
    ⟨rfl, fun _ _ => rfl, nofun, fun _ other => absurd rfl other, fun _ other => absurd rfl other,
      h.line, h.line⟩
  rw [Scanner.tokens, Scanner.tokens, List.filter_append, List.filter_reverse, List.filter_append,
    List.filter_cons_of_pos (by exact last), List.filter_nil]
  exact List.rel_append (List.rel_reverse (List.rel_append h.held h.settled)) (.cons final .nil)

/-- Behind a line feed both scanners stand at the same character. -/
theorem newline (h : Abreast σ counts a b) (feeds : counts .newline = true)
    (here : b.here.after ['\n'] = (a.here.after ['\n']).shift σ) :
    Level σ counts (a.push .newline ['\n']) (b.push .newline ['\n']) := by
  have line : (b.here.after ['\n']).line = (a.here.after ['\n']).line := Position.line_of_shift here
  have token : Token.Shifted σ ⟨.newline, String.ofList ['\n'], a.here, a.here.after ['\n']⟩
      ⟨.newline, String.ofList ['\n'], b.here, b.here.after ['\n']⟩ :=
    ⟨rfl, fun _ _ => rfl, nofun, fun other => absurd rfl other, fun _ _ => here, h.line, line⟩
  rw [push, push, if_pos List.mem_cons_self, if_pos List.mem_cons_self]
  refine ⟨⟨?_, .nil, line⟩, here, here, rfl, rfl, rfl⟩
  rw [List.filter_cons_of_pos (by exact feeds), List.filter_append]
  exact .cons token (List.rel_append h.held h.settled)

/-- The second scanner passes over blanks at the end of a line. -/
theorem blank (h : Abreast σ counts a b) {text rest : List Char} (free : '\n' ∉ text) :
    Abreast σ counts a (b.take ⟨.blank, text, rest⟩) := by
  refine ⟨h.settled, h.held, ?_⟩
  rw [take_here, Position.after_line, List.count_eq_zero.mpr free, Nat.add_zero, h.line]

/-- The second scanner takes a token that does not count. -/
theorem uncounted (h : Abreast σ counts a b) {kind : Kind} (other : counts kind = false)
    {text : List Char} (free : '\n' ∉ text) : Abreast σ counts a (b.push kind text) := by
  rw [push, if_neg free]
  refine ⟨h.settled, ?_, ?_⟩
  · rw [List.filter_cons_of_neg (by simp [other])]
    exact h.held
  · rw [Position.after_line, List.count_eq_zero.mpr free, Nat.add_zero, h.line]

end Abreast

/-- A lexeme that is read in place of another. Only strings may differ, and then hold the same
references. -/
structure Rewritten (l l' : Lexeme) : Prop where
  shape : l'.shape = l.shape
  free : '\n' ∉ l.text → l'.text = l.text
  broken : '\n' ∈ l.text → '\n' ∈ l'.text
  string : l'.text ≠ l.text → l.shape = .token .string ∨ l.shape = .unclosed
  refers : Lint.percentVariable.occurs l'.text = Lint.percentVariable.occurs l.text

theorem Rewritten.same (l : Lexeme) (rest : List Char) : Rewritten l { l with rest := rest } :=
  ⟨rfl, fun _ => rfl, id, fun other => absurd rfl other, rfl⟩

/-- Nothing else differs. -/
theorem Rewritten.text {l l' : Lexeme} (h : Rewritten l l') (literal : l.shape ≠ .token .string)
    (closed : l.shape ≠ .unclosed) : l'.text = l.text := by
  by_contra other
  exact (h.string other).elim literal closed

namespace Level

theorem push (h : Level σ counts a b) {l l' : Lexeme} (rewritten : Rewritten l l') {kind : Kind}
    (shape : l.shape = .token kind)
    (counted : counts kind = true) (here : b.here.after l'.text = (a.here.after l.text).shift σ) :
    Level σ counts (a.push kind l.text) (b.push kind l'.text) := by
  have line : (b.here.after l'.text).line = (a.here.after l.text).line :=
    Position.line_of_shift here
  have token : Token.Shifted σ ⟨kind, String.ofList l.text, a.here, a.here.after l.text⟩
      ⟨kind, String.ofList l'.text, b.here, b.here.after l'.text⟩ := by
    refine ⟨rfl, fun string _ => ?_, fun _ => ?_, fun _ _ => h.here, fun _ _ => here, h.line, line⟩
    · exact congrArg String.ofList
        (rewritten.text (by simpa [shape] using string) (by simp [shape]))
    · simpa using rewritten.refers
  by_cases feed : '\n' ∈ l.text
  · rw [Scanner.push, Scanner.push, if_pos feed, if_pos (rewritten.broken feed)]
    refine ⟨⟨?_, .nil, line⟩, here, here, rfl, rfl, rfl⟩
    rw [List.filter_cons_of_pos (by exact counted), List.filter_append]
    exact .cons token (List.rel_append h.held h.settled)
  · have text := rewritten.free feed
    rw [text] at token here line ⊢
    rw [Scanner.push, Scanner.push, if_neg feed, if_neg feed]
    refine ⟨⟨h.settled, ?_, line⟩, here, h.start, ?_, ?_, ?_⟩
    · rw [List.filter_cons_of_pos (by exact counted)]
      exact .cons token h.held
    · exact congrArg (l.text.reverse ++ ·) h.text
    · simp only [List.reverse_append, List.reverse_reverse, Position.after_append, h.reached]
    · simp only [List.reverse_append, List.reverse_reverse, Position.after_append, h.reached']

/-- A hotkey claims the same stretch of the line. -/
theorem colonPair (h : Level σ counts a b) {l l' : Lexeme} (shape : l.shape = .colonPair)
    (shape' : l'.shape = .colonPair) (text : l'.text = l.text) (counted : counts .hotkey = true)
    (here : b.here.after l'.text = (a.here.after l.text).shift σ) :
    Level σ counts (a.take l) (b.take l') := by
  have line : (b.here.after l'.text).line = (a.here.after l.text).line :=
    Position.line_of_shift here
  have whole : a.stretch.text.reverse = a.stretch.text.reverse.takeWhile isBlank ++
      a.stretch.text.reverse.dropWhile isBlank :=
    List.takeWhile_append_dropWhile.symm
  have ends : (a.stretch.start.shift σ).after a.stretch.text.reverse =
      (a.stretch.start.after a.stretch.text.reverse).shift σ := by
    have reached := h.reached'
    rw [h.start, h.text, h.here] at reached
    rw [h.reached, reached]
  have start : b.stretch.start.after (b.stretch.text.reverse.takeWhile isBlank) =
      (a.stretch.start.after (a.stretch.text.reverse.takeWhile isBlank)).shift σ := by
    rw [h.start, h.text]
    rw [whole] at ends
    exact Position.after_shift ends
  have token : Token.Shifted σ (a.stretch.hotkey (a.here.after l.text))
      (b.stretch.hotkey (b.here.after l'.text)) := by
    refine ⟨rfl, fun _ _ => ?_, nofun, fun _ _ => start, fun _ _ => here,
      Position.line_of_shift start, line⟩
    rw [Stretch.hotkey, Stretch.hotkey, h.text]
  rw [take, take, shape, shape']
  refine ⟨⟨h.settled, ?_, line⟩, here, h.start, ?_, ?_, ?_⟩
  · rw [List.filter_cons_of_pos (by exact counted)]
    exact .cons token .nil
  · rw [text]
    exact congrArg (l.text.reverse ++ ·) h.text
  · simp only [List.reverse_append, List.reverse_reverse, Position.after_append, h.reached]
  · simp only [List.reverse_append, List.reverse_reverse, Position.after_append, h.reached']

/-- One lexeme more. -/
theorem take (h : Level σ counts a b) {c : Char} {rest : List Char} {l' : Lexeme}
    (rewritten : Rewritten (Lexeme.read c rest) l')
    (closed : (Lexeme.read c rest).shape ≠ .unclosed) (counted : ∀ kind,
      (Lexeme.read c rest).shape = .token kind ∨ kind = .hotkey → counts kind = true)
    (here : b.here.after l'.text = (a.here.after (Lexeme.read c rest).text).shift σ) :
    Level σ counts (a.take (Lexeme.read c rest)) (b.take l') := by
  have shape' := rewritten.shape
  have line : (b.here.after l'.text).line = (a.here.after (Lexeme.read c rest).text).line :=
    Position.line_of_shift here
  rcases Lexeme.read_cases c rest with ⟨shape, _⟩ | ⟨kind, shape, _⟩ | ⟨shape, _⟩ | ⟨shape, _⟩
  · have text : l'.text = (Lexeme.read c rest).text := rewritten.text (by simp [shape]) closed
    rw [shape] at shape'
    rw [Scanner.take, Scanner.take, shape, shape', text]
    rw [text] at here line
    refine ⟨⟨h.settled, h.held, line⟩, here, h.start, ?_, ?_, ?_⟩
    · exact congrArg ((Lexeme.read c rest).text.reverse ++ ·) h.text
    · simp only [List.reverse_append, List.reverse_reverse, Position.after_append, h.reached]
    · simp only [List.reverse_append, List.reverse_reverse, Position.after_append, h.reached']
  · rw [shape] at shape'
    rw [Scanner.take, Scanner.take, shape, shape']
    exact h.push rewritten shape (counted kind (.inl shape)) here
  · have text : l'.text = (Lexeme.read c rest).text := rewritten.text (by simp [shape]) closed
    rw [shape] at shape'
    exact h.colonPair shape shape' text (counted .hotkey (.inr rfl)) here
  · exact absurd shape closed

/-- Both scanners take a comment; what it holds may differ. -/
theorem comment (h : Level σ counts a b) (counted : counts .comment = true) {text text' : List Char}
    (free : '\n' ∉ text)
    (free' : '\n' ∉ text') : Abreast σ counts (a.push .comment text) (b.push .comment text') := by
  have stops : (b.here.after text').line = (a.here.after text).line := by
    rw [Position.after_line, Position.after_line, List.count_eq_zero.mpr free,
      List.count_eq_zero.mpr free', h.line]
  have token : Token.Shifted σ ⟨.comment, String.ofList text, a.here, a.here.after text⟩
      ⟨.comment, String.ofList text', b.here, b.here.after text'⟩ :=
    ⟨rfl, fun _ other => absurd rfl other, nofun, fun _ _ => h.here, fun other => absurd rfl other,
      h.line, stops⟩
  rw [Scanner.push, Scanner.push, if_neg free, if_neg free']
  refine ⟨h.settled, ?_, stops⟩
  rw [List.filter_cons_of_pos (by exact counted)]
  exact .cons token h.held

/-- Both scanners stop at a string that never closes. -/
theorem unclosed (h : Level σ counts a b) {l l' : Lexeme} (shape : l.shape = .unclosed)
    (shape' : l'.shape = .unclosed)
    (line : (b.here.after l'.text).line = (a.here.after l.text).line) :
    Abreast σ counts (a.take l) (b.take l') := by
  rw [Scanner.take, Scanner.take, shape, shape']
  exact ⟨h.settled, h.held, line⟩

end Level

end Scanner

def LexError.shift (σ : Shift) : LexError → LexError
  | unterminatedString opened => unterminatedString (opened.shift σ)

end ScriptLens
