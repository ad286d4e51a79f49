import ScriptLens.Proofs.Brackets.Counting
import ScriptLens.Proofs.Lint.Codes
import ScriptLens.Proofs.Scan.Hotkeys
import Mathlib.Algebra.Order.BigOperators.Group.List
import Mathlib.Algebra.Order.Group.Nat

/-!
The linter's findings about indentation, line by line. A line is measured unless it is empty, a
comment or inside a string, and compared where it stands in a block. Where no closing brace is
without a partner the level is the number of open braces.
-/

namespace ScriptLens

namespace Position

variable {text : List Char} {p q : Position}

/-- What stands on an earlier line stands before. -/
theorem In.offset_lt (hp : p.In text) (hq : q.In text) (h : p.line < q.line) :
    p.offset < q.offset := by
  obtain ⟨a, a', split, rfl⟩ := hp
  obtain ⟨b, b', split', rfl⟩ := hq
  rw [after_line, after_line] at h
  rw [after_offset, after_offset]
  rcases List.prefix_or_prefix_of_prefix ⟨a', split.symm⟩ ⟨b', split'.symm⟩ with
    ⟨part, rfl⟩ | ⟨part, rfl⟩
  · have nonempty : part ≠ [] := by
      rintro rfl
      simp at h
    have := Text.byteLength_pos nonempty
    rw [Text.byteLength_append]
    omega
  · rw [List.count_append] at h
    omega

end Position

namespace Text.LineAt

variable {text front line back : List Char} {number : Nat} {p : Position}

/-- A place is on an earlier line if it comes before the first character of the line. -/
theorem line_lt_iff (h : LineAt text number front line back) (hp : p.In text) :
    p.line < number ↔ p.offset < byteLength front := by
  have here : (Position.start.after front).In text := Position.in_after h.split
  have number' : (Position.start.after front).line = number := by
    rw [Position.after_line, h.number, Nat.add_comm]
    rfl
  have offset : (Position.start.after front).offset = byteLength front := by
    rw [Position.after_offset, Position.start_offset, Nat.zero_add]
  constructor
  · intro above
    have before := hp.offset_lt here (number' ▸ above)
    rwa [offset] at before
  · obtain ⟨a, a', split, rfl⟩ := hp
    rw [Position.after_offset, Position.start_offset, Nat.zero_add, Position.after_line]
    intro before
    rcases List.prefix_or_prefix_of_prefix ⟨a', split.symm⟩ ⟨line ++ back, h.split.symm⟩ with
      ⟨part, rfl⟩ | ⟨part, rfl⟩
    · have nonempty : part ≠ [] := by
        rintro rfl
        simp at before
      have feed : part.getLast nonempty = '\n' :=
        h.whole _ (by simp [List.getLast?_append, List.getLast?_eq_getLast_of_ne_nil nonempty])
      have positive : 0 < part.count '\n' :=
        List.count_pos_iff.mpr (feed ▸ List.getLast_mem nonempty)
      have start : Position.start.line = 1 := rfl
      rw [h.number, start, List.count_append]
      omega
    · rw [byteLength_append] at before
      omega

end Text.LineAt

/-- Only a line break ends with a line feed. -/
theorem Token.Reads.last {t : Token} {body behind : List Char} (h : t.Reads body behind)
    (newline : t.kind ≠ .newline) : body.getLast? ≠ some '\n' := by
  intro last
  have inside : '\n' ∈ body := List.mem_of_getLast? last
  cases h with
  | hotkey _ line => exact line.free inside
  | @lexeme c rest ahead read =>
      have text : (Lexeme.read c rest).text = body := congrArg Lexeme.text read
      by_cases comment : c = ';'
      · subst comment
        exact (Lexeme.read_comment rest).2.1 (text ▸ inside)
      by_cases quote : c = '"'
      · subst quote
        obtain ⟨_, inner, whole, _⟩ := Lexeme.read_quote (by rw [read]; simp)
        rw [← text, whole, ← List.cons_append, List.getLast?_concat] at last
        exact absurd (Option.some.inj last) (by decide)
      · obtain ⟨tail, whole, plain⟩ := Lexeme.read_tailed comment quote rest
        rw [text] at whole
        subst whole
        rcases List.mem_cons.mp inside with rfl | later
        · exact newline (Token.Reads.lexeme ahead read).feed
        · exact absurd (plain _ later) (by decide)

namespace Lint

/-- Only strings and line breaks end on another line than they start on. -/
theorem string_of_lines {source : String} {t : Token} (scanned : t ∈ (scan source).tokens)
    (newline : t.kind ≠ .newline) (lines : t.start.line < t.stop.line) : t.kind = .string := by
  rw [scan_tokens] at scanned
  rcases List.mem_append.mp scanned with early | final
  · obtain ⟨before, body, behind, text, covers, reads⟩ := lineTokens_origin source t early
    have stop : t.stop.line = t.start.line + body.count '\n' := by
      rw [covers.stop, covers.start, Position.after_line]
    have feed : '\n' ∈ body := List.count_pos_iff.mp (by omega)
    by_contra other
    exact reads.line other newline feed
  · rw [List.mem_singleton.mp final] at lines
    exact absurd lines (Nat.lt_irrefl _)

/-- A line begins inside a token where it begins inside a string. -/
theorem isContinued_iff {source : String} {number : Nat} {front line back : List Char}
    (place : Text.LineAt source.toList number front line back) :
    isContinued (scan source).tokens number = true ↔
      ∃ t ∈ (scan source).tokens, t.kind = .string ∧ t.start.offset < Text.byteLength front ∧
        Text.byteLength front < t.stop.offset := by
  have inside := (scan_tokens_in source).1
  rw [isContinued, List.any_eq_true]
  constructor
  · rintro ⟨t, scanned, crosses⟩
    simp only [Bool.and_eq_true, bne_iff_ne, ne_eq, decide_eq_true_eq] at crosses
    obtain ⟨⟨newline, above⟩, below⟩ := crosses
    have first := (place.line_lt_iff (inside t scanned).start).mp above
    have last := fun before =>
      Nat.not_lt_of_le below ((place.line_lt_iff (inside t scanned).stop).mpr before)
    have member := scanned
    rw [scan_tokens] at member
    rcases List.mem_append.mp member with early | final
    · obtain ⟨before, body, behind, text, covers, reads⟩ := lineTokens_origin source t early
      have string := string_of_lines scanned newline (by omega)
      refine ⟨t, scanned, string, first, Nat.lt_of_le_of_ne (Nat.le_of_not_lt last) fun same => ?_⟩
      -- a line that begins right behind the token would make the token end with a line feed
      have ends : Text.byteLength front = Text.byteLength (before ++ body) := by
        rw [same, covers.stop, ← Position.after_append, Position.after_offset,
          Position.start_offset, Nat.zero_add]
      obtain ⟨rfl, _⟩ := Text.append_inj_of_byteLength
        (place.split.symm.trans (text.trans (List.append_assoc ..).symm)) ends
      have feed := place.whole (body.getLast covers.nonempty)
        (by simp [List.getLast?_append, List.getLast?_eq_getLast_of_ne_nil covers.nonempty])
      exact reads.last newline (by rw [List.getLast?_eq_getLast_of_ne_nil covers.nonempty, feed])
    · rw [List.mem_singleton.mp final] at above below
      exact absurd above (Nat.not_lt_of_le below)
  · rintro ⟨t, member, string, first, last⟩
    refine ⟨t, member, ?_⟩
    have above := (place.line_lt_iff (inside t member).start).mpr first
    have below := fun before =>
      Nat.lt_asymm last ((place.line_lt_iff (inside t member).stop).mp before)
    have above' : t.start.line < number := above
    have below' : number ≤ t.stop.line := Nat.le_of_not_lt below
    simp [string, above', below']

section Levels

variable {tokens : List Token}

/-- The number of tokens of a kind that start above a line. -/
def countAbove (tokens : List Token) (kind : Kind) (line : Nat) : Nat :=
  tokens.countP fun t => t.kind = kind && t.start.line < line

theorem countAbove_succ (tokens : List Token) (kind : Kind) (line : Nat) :
    countAbove tokens kind (line + 1) = countAbove tokens kind line + countOn tokens kind line := by
  rw [countAbove, countAbove, countOn]
  induction tokens with
  | nil => rfl
  | cons t rest ih =>
      simp only [List.countP_cons, ih, Bool.and_eq_true, decide_eq_true_eq]
      by_cases here : t.kind = kind
      · rcases Nat.lt_trichotomy t.start.line line with above | same | below
        · simp [here, above, Nat.lt_succ_of_lt above, Nat.ne_of_lt above]
          omega
        · simp [here, same, Nat.add_assoc]
        · simp [here, Nat.not_lt_of_lt below, Nat.ne_of_gt below]
          exact below
      · simp [here]

/-- Where the tokens stand in order, those above a line are the first ones. -/
theorem filter_above (ordered : tokens.Pairwise fun a b => a.start.line ≤ b.start.line)
    (line : Nat) : ∃ length, tokens.filter (·.start.line < line) = tokens.take length := by
  induction tokens with
  | nil => exact ⟨0, rfl⟩
  | cons t rest ih =>
      obtain ⟨first, later⟩ := List.pairwise_cons.mp ordered
      by_cases above : t.start.line < line
      · obtain ⟨length, same⟩ := ih later
        exact ⟨length +
          1, by rw [List.filter_cons_of_pos (by simpa using above), same, List.take_succ_cons]⟩
      · refine ⟨0, ?_⟩
        rw [List.take_zero, List.filter_eq_nil_iff]
        intro u member
        rcases List.mem_cons.mp member with rfl | behind
        · simpa using above
        · have := first u behind
          simp only [decide_eq_true_eq]
          omega

/-- Where every closing brace has a partner, no line has more of them above it than opening ones. -/
theorem closed_le_opened (ordered : tokens.Pairwise fun a b => a.start.line ≤ b.start.line)
    (matched : ∀ d ∈ brackets tokens, d.code ≠ .unmatchedBrace) (line : Nat) :
    countAbove tokens .rBrace line ≤ countAbove tokens .lBrace line := by
  have closers : (Bracket.brace.pair [] tokens).1 = [] := by
    refine List.eq_nil_iff_forall_not_mem.mpr fun t member => ?_
    refine matched (Bracket.brace.unmatched t)
      (Diagnostic.mem_inOrder.mpr (List.mem_flatMap.mpr ⟨.brace, by simp, ?_⟩)) rfl
    exact List.mem_append_left _ (List.mem_map_of_mem member)
  obtain ⟨length, first⟩ := filter_above ordered line
  have bound := (Bracket.pair_counts .brace tokens).1.2 ⟨length, rfl⟩
  rw [closers, List.length_nil, ← first, Bracket.excess, List.countP_filter,
    List.countP_filter] at bound
  have bound' : (countAbove tokens .rBrace line : Int) - countAbove tokens .lBrace line ≤ 0 := bound
  omega

/-- Then the level of a line is the number of braces that are open above it. -/
theorem levelFrom_eq
    (balanced : ∀ line, countAbove tokens .rBrace line ≤ countAbove tokens .lBrace line)
    {number level : Nat}
    (here : level + countAbove tokens .rBrace number = countAbove tokens .lBrace number) (i : Nat) :
    levelFrom tokens number level i =
    countAbove tokens .lBrace (number + i) - countAbove tokens .rBrace (number + i) := by
  induction i generalizing number level with
  | zero =>
      rw [levelFrom, Nat.add_zero]
      omega
  | succ i ih =>
      have next := balanced (number + 1)
      rw [countAbove_succ, countAbove_succ] at next
      rw [levelFrom, ih, Nat.add_right_comm, Nat.add_assoc number]
      rw [countAbove_succ, countAbove_succ]
      omega

theorem countAbove_le (tokens : List Token) (kind : Kind) (line : Nat) :
    countAbove tokens kind line ≤ tokens.countP (·.kind = kind) :=
  List.countP_mono_left fun _ _ both => (Bool.and_eq_true_iff.mp both).1

theorem levelFrom_top {source : String}
    (balanced : ∀ line, countAbove (scan source).tokens .rBrace line ≤
      countAbove (scan source).tokens .lBrace line) (i : Nat) :
    levelFrom (scan source).tokens 1 0 i = countAbove (scan source).tokens .lBrace
      (i + 1) - countAbove (scan source).tokens .rBrace (i + 1) := by
  have none : countAbove (scan source).tokens .lBrace 1 = 0 := by
    refine List.countP_eq_zero.mpr fun t member => ?_
    obtain ⟨front, _, _, place⟩ := ((scan_tokens_in source).1 t member).start
    have line : t.start.line =
      Position.start.line + front.count '\n' := by rw [← Position.after_line, ← place]; rfl
    have first : Position.start.line = 1 := rfl
    simp only [Bool.and_eq_true, decide_eq_true_eq, not_and]
    omega
  have top := balanced 1
  rw [levelFrom_eq balanced (by omega), Nat.add_comm 1]

end Levels

section Widths

theorem indentColumns_le (width : Nat) (line : List Char) :
    indentColumns width line ≤ max width 1 * line.length := by
  have bound : ∀ n ∈ (line.takeWhile isIndent).map fun c => if c = '\t' then width else 1,
      n ≤ max width 1 := by
    intro n member
    obtain ⟨c, _, rfl⟩ := List.mem_map.mp member
    split <;> omega
  have sum := List.sum_le_card_nsmul _ _ bound
  rw [List.length_map, Nat.nsmul_eq_mul, Nat.mul_comm] at sum
  exact Nat.le_trans sum (Nat.mul_le_mul_left _ (List.takeWhile_sublist _).length_le)

theorem line_length_le {source : String} {i : Nat} {line : List Char}
    (place : (Text.lines source.toList)[i]? = some line) : line.length ≤ source.utf8ByteSize := by
  obtain ⟨front, back, here⟩ := Text.lineAt_of_lines place
  have whole := Text.byteLength_toList source
  have length := Text.length_le_byteLength line
  rw [here.split, Text.byteLength_append, Text.byteLength_append] at whole
  omega

/-- The width of a line's indentation fits a word where the line does. -/
theorem indentColumns_lt {width : UInt64} {source : String} {i : Nat} {line : List Char}
    (place : (Text.lines source.toList)[i]? = some line) (fits : width.toNat * line.length < 2 ^ 64)
    (size : width = 0 → source.utf8ByteSize < 2 ^ 64) :
    indentColumns width.toNat line < 2 ^ 64 := by
  refine Nat.lt_of_le_of_lt (indentColumns_le _ _) ?_
  by_cases zero : width = 0
  · have one : max (0 : UInt64).toNat 1 = 1 := rfl
    rw [zero, one, Nat.one_mul]
    exact Nat.lt_of_le_of_lt (line_length_le place) (size zero)
  · have positive : 1 ≤ width.toNat := Nat.pos_of_ne_zero fun none =>
      zero (UInt64.toNat_inj.mp none)
    rwa [Nat.max_eq_left positive]

end Widths

section Lines

/-- A line whose indentation is measured: it holds something, is no comment and does not begin
inside a string. -/
structure Measured (source : List Char) (tokens : List Token) (number : Nat) (line : List Char) :
    Prop where
  filled : line.dropWhile isIndent ≠ []
  code : (line.dropWhile isIndent).head? ≠ some ';'
  outside : ¬∃ t ∈ tokens, t.kind = .string ∧
    t.start.offset < (LineIndex.ofText source).lineStart number ∧
    (LineIndex.ofText source).lineStart number < t.stop.offset

/-- A line whose indentation is compared: it is measured and stands in a block. -/
structure Compared (source : List Char) (tokens : List Token) (number level : Nat)
    (line : List Char) : Prop extends Measured source tokens number line where
  nested : 0 < lineLevel level line

/-- A line whose indentation is compared and differs from what its level asks for. -/
structure Misindented (width : Nat) (source : List Char) (tokens : List Token) (number level : Nat)
    (line : List Char) : Prop extends Compared source tokens number level line where
  differs : indentColumns width line ≠ lineLevel level line * width

variable {source : String} {number level : Nat} {front line back : List Char}

theorem isMeasured_iff (place : Text.LineAt source.toList number front line back) :
    isMeasured (scan source).tokens number line = true ↔
      Measured source.toList (scan source).tokens number line := by
  have continued := isContinued_iff place
  rw [← place.lineStart] at continued
  rw [isMeasured, Bool.and_eq_true, Bool.not_eq_true', ← Bool.not_eq_true, continued,
    Option.any_eq_true]
  constructor
  · rintro ⟨⟨first, starts, code⟩, outside⟩
    refine ⟨?_, ?_, outside⟩
    · intro empty
      rw [empty] at starts
      cases starts
    · rw [starts]
      simpa using code
  · rintro ⟨filled, code, outside⟩
    obtain ⟨first, starts⟩ := Option.ne_none_iff_exists'.mp fun none =>
      filled (List.head?_eq_none_iff.mp none)
    rw [starts] at code
    exact ⟨⟨first, starts, by simpa using code⟩, outside⟩

/-- There is a remark about the lines that are misindented. -/
theorem indentNote?_iff {width : Nat} (place : Text.LineAt source.toList number front line back)
    {d : Diagnostic} :
    indentNote? width source.toList (scan source).tokens number level line = some d ↔
      Misindented width source.toList (scan source).tokens number level line ∧
      d = indentNote source.toList number line (lineLevel level line * width)
        (indentColumns width line) := by
  rw [indentNote?, Option.ite_none_right_eq_some, isMeasured_iff place, Option.some.injEq]
  constructor
  · rintro ⟨⟨measured, nested, differs⟩, rfl⟩
    exact ⟨⟨⟨measured, nested⟩, differs⟩, rfl⟩
  · rintro ⟨misindented, rfl⟩
    exact ⟨⟨misindented.toMeasured, misindented.nested, misindented.differs⟩, rfl⟩

end Lines

section Runs

variable (settings : LintSettings) (source : String)

theorem indentNotes_increase (width : Nat) (source : List Char) (tokens : List Token)
    (number level : Nat) (lines : List (List Char)) :
    (indentNotes width source tokens (number + 1) level lines).Pairwise
      fun a b => a.range.start.line < b.range.start.line := by
  induction lines generalizing number level with
  | nil => exact .nil
  | cons line rest ih =>
      rw [indentNotes, List.pairwise_append]
      refine ⟨?_, ih (number + 1) _, fun a here b below => ?_⟩
      · cases indentNote? width source tokens (number + 1) level line with
        | none => exact .nil
        | some d => exact List.pairwise_singleton _ _
      · obtain ⟨i, line', _, found⟩ := mem_indentNotes.mp below
        rw [indentNote_some (Option.mem_toList.mp here), indentNote_some found]
        simp only [indentNote, Diagnostic.lint, LineIndex.positionAt]
        omega

/-- The linter's findings about indentation are the remarks of the walk over the lines. -/
theorem listing_indentation :
    (listing settings source).filter (·.code = .inconsistentIndentation) =
      remarks settings source := by
  rw [listing_style settings source (by decide), style, Diagnostic.filter_inOrder]
  simp only [List.filter_append,
    (namesFrom_coded _ _ _ _).none (c := .inconsistentIndentation) (by decide),
    (indentNotes_coded _ _ _ _ _ _).all,
    (oldReferences_coded _).none (c := .inconsistentIndentation) (by decide),
    (loopDepthFrom_coded _ _ _ _).none (c := .inconsistentIndentation) (by decide),
    (dangerousFrom_coded _ _).none (c := .inconsistentIndentation) (by decide),
    (missingVersion_coded _ _).none (c := .inconsistentIndentation) (by decide),
    List.nil_append, List.append_nil]
  refine inOrder_eq_self ?_
  have inside := indentNotes_ranges settings.indentWidth.toNat (scan source).tokens source.toList
  exact (indentNotes_increase _ _ _ 0 0 _).imp_of_mem fun first second above =>
    Nat.le_of_lt ((inside _ first).start.offset_lt (inside _ second).start above)

/-- The findings about indentation: one for each line that is misindented at its level. -/
theorem mem_listing_indentation {d : Diagnostic} :
    d ∈ (listing settings source).filter (·.code = .inconsistentIndentation) ↔
      ∃ i line, (Text.lines source.toList)[i]? = some line ∧
        Misindented settings.indentWidth.toNat source.toList (scan source).tokens (i + 1)
          (levelFrom (scan source).tokens 1 0 i) line ∧
        d = indentNote source.toList (i + 1) line
          (lineLevel (levelFrom (scan source).tokens 1 0 i) line * settings.indentWidth.toNat)
          (indentColumns settings.indentWidth.toNat line) := by
  rw [listing_indentation, mem_indentNotes]
  refine exists_congr fun i => exists_congr fun line => and_congr_right fun place => ?_
  obtain ⟨front, back, place⟩ := Text.lineAt_of_lines place
  rw [Nat.add_comm 1 i]
  exact indentNote?_iff place

end Runs

end Lint

open Lint

/-- The findings about indentation are exact. For a script that scans, in which every closing brace
has a partner and no width leaves a word, the linter returns; more braces are opened than closed
above every line, so that their difference is the level; the findings are one for each line that is
misindented at that level, which shows both widths, in the order of the lines. -/
theorem indentation_exact (settings : LintSettings) {source : String} {tokens : List Token}
    (scans : tokenize source = .ok tokens)
    (matched : ∀ d ∈ brackets tokens, d.code ≠ .unmatchedBrace)
    (levels : settings.indentWidth.toNat * tokens.countP (·.kind = .lBrace) < 2 ^ 64)
    (widths : ∀ line ∈ Text.lines source.toList,
      settings.indentWidth.toNat * line.length < 2 ^ 64)
    (size : settings.indentWidth = 0 → source.utf8ByteSize < 2 ^ 64) :
    (∀ number, countAbove tokens .rBrace number ≤ countAbove tokens .lBrace number) ∧
    ∃ found, lint settings source = some found ∧
      (∀ d, d ∈ found.filter (·.code = .inconsistentIndentation) ↔
        ∃ i line level, (Text.lines source.toList)[i]? = some line ∧
          level = countAbove tokens .lBrace (i + 1) - countAbove tokens .rBrace (i + 1) ∧
          Misindented settings.indentWidth.toNat source.toList tokens (i + 1) level line ∧
          d = indentNote source.toList (i + 1) line
            (lineLevel level line * settings.indentWidth.toNat)
            (indentColumns settings.indentWidth.toNat line)) ∧
      (found.filter (·.code = .inconsistentIndentation)).Pairwise
        fun a b => a.range.start.line < b.range.start.line := by
  obtain rfl : (scan source).tokens = tokens := (fault_of_tokenize scans).2
  have balanced := closed_le_opened (lines_ordered source) matched
  have fits : ¬Overflows settings source := by
    rintro ⟨i, line, place, -, overflows⟩
    refine overflows ⟨indentColumns_lt place (widths line (List.mem_of_getElem? place)) size, ?_⟩
    have opened : lineLevel (levelFrom (scan source).tokens 1 0 i) line ≤
        (scan source).tokens.countP (·.kind = .lBrace) := by
      refine Nat.le_trans (lineLevel_le _ line) ?_
      rw [levelFrom_top balanced i]
      exact Nat.le_trans (Nat.sub_le _ _) (countAbove_le _ .lBrace (i + 1))
    exact Nat.lt_of_le_of_lt (Nat.mul_comm _ _ ▸ Nat.mul_le_mul_left _ opened) levels
  refine ⟨balanced, _, lint_of_fits fits, fun d => ?_, ?_⟩
  · rw [mem_listing_indentation]
    refine exists_congr fun i => exists_congr fun line => ?_
    rw [levelFrom_top balanced i]
    constructor
    · rintro ⟨place, misindented, rfl⟩
      exact ⟨_, place, rfl, misindented, rfl⟩
    · rintro ⟨_, place, rfl, misindented, rfl⟩
      exact ⟨place, misindented, rfl⟩
  · rw [listing_indentation]
    exact indentNotes_increase _ _ _ 0 0 _

/-- A block with a string over two lines: the line behind the string is misindented. -/
theorem indentation_exact_block : ∃ source tokens found,
    source = "f() \x7b\n\ts := \"a\n b\"\n  y\n; c\n\x7d\n" ∧ tokenize source = .ok tokens ∧
    (∀ d ∈ brackets tokens, d.code ≠ .unmatchedBrace) ∧
    4 * tokens.countP (·.kind = .lBrace) < 2 ^ 64 ∧
    (∀ line ∈ Text.lines source.toList, 4 * line.length < 2 ^ 64) ∧
    Misindented 4 source.toList tokens 4 1 [' ', ' ', 'y'] ∧ lint {} source = some found ∧
    indentNote source.toList 4 [' ', ' ', 'y'] 4 2 ∈
      found.filter (·.code = .inconsistentIndentation) := by
  have scans : tokenize "f() \x7b\n\ts := \"a\n b\"\n  y\n; c\n\x7d\n" =
      .ok (scan "f() \x7b\n\ts := \"a\n b\"\n  y\n; c\n\x7d\n").tokens := by
    decide +kernel
  have misindented : Misindented 4 "f() \x7b\n\ts := \"a\n b\"\n  y\n; c\n\x7d\n".toList
      (scan "f() \x7b\n\ts := \"a\n b\"\n  y\n; c\n\x7d\n").tokens 4 1 [' ', ' ', 'y'] :=
    ⟨⟨⟨by decide, by decide, by decide +kernel⟩, by decide⟩, by decide⟩
  obtain ⟨_, found, returns, exact, _⟩ := indentation_exact {} scans (by decide +kernel)
    (by decide +kernel) (by decide +kernel) (by decide)
  refine ⟨_, _, found, rfl, scans, by decide +kernel, by decide +kernel, by decide +kernel,
    misindented, returns, (exact _).mpr ?_⟩
  exact ⟨3, _, 1, by decide +kernel, by decide +kernel, misindented, rfl⟩

end ScriptLens
