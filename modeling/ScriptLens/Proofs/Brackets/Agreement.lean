import ScriptLens.Proofs.Brackets.Order
import ScriptLens.Proofs.Brackets.Scan
import ScriptLens.Proofs.Scan.Comments

/-!
The two bracket checks agree. The linter matches tokens and the line checks match characters; where
the character scan reads strings, comments and hotkeys as the lexer does, the same brackets wait and
the same are left over, at the same places.
-/

namespace ScriptLens

namespace LineChecks.BracketScan

open Lint (Bracket)

variable {b : Bracket} {front gap body rest whole text : List Char}

theorem Ready.blanks (ready : Ready front (gap ++ rest)) (blank : ∀ c ∈ gap, isBlank c = true) :
    Ready (front ++ gap) rest := by
  rcases ready with code | feed
  · have keeps : Keeps .brace (scanned front) (scanned (front ++ gap)) := keeps_blanks front blank
    exact .inl (keeps.mode.trans code)
  · cases gap with
    | nil => exact .inr feed
    | cons c gap =>
        have first := blank c List.mem_cons_self
        rw [feed c rfl] at first
        cases first

/-- The scan reads tokens as matching does: what waits behind them are the openings that matching
leaves, and the closings without a partner are the same. -/
theorem scanned_tiled (watched : b ≠ .square) {last : Token} (closing : last.kind = .eof)
    {p : Position}
    {tokens : List Token} (tiled : Tiled p text tokens) (place : p = Position.start.after front)
    (split : whole = front ++ text) (origins : ∀ t ∈ tokens, t.Origin whole)
    (tame : ∀ t ∈ tokens, ∀ before body behind, whole = before ++ (body ++ behind) →
      t.Covers (Position.start.after before) body → Tame b t before body)
    (ready : Ready front text) {stack : List Token}
    (waits : (scanned front).waiting b = stack.map (·.start.offset)) :
    (scanned whole).waiting b = (b.pair stack (tokens ++ [last])).2.map (·.start.offset) ∧
      (scanned whole).unmatchedAt b = (scanned front).unmatchedAt b ++
        (b.pair stack (tokens ++ [last])).1.map (·.start.offset) := by
  induction tiled generalizing front stack with
  | @blank p gap blank =>
      have ends : b.pair stack [last] = ([], stack) :=
        Bracket.pair_other (by rw [closing]; cases b <;> decide)
          (by rw [closing]; cases b <;> decide)
      have keeps : Keeps b (scanned front) (scanned (front ++ gap)) := keeps_blanks front blank
      rw [split, List.nil_append, ends, keeps.waiting, keeps.unmatched, waits]
      exact ⟨rfl, (List.append_nil _).symm⟩
  | @token p gap body rest t tokens blank covers tail ih =>
      have split' : whole = (front ++ gap) ++ (body ++ rest) := by rw [split]; simp
      have keeps : Keeps b (scanned front) (scanned (front ++ gap)) := keeps_blanks front blank
      have ready' := ready.blanks blank
      rw [place, ← Position.after_append] at covers
      rw [← keeps.waiting] at waits
      rw [← keeps.unmatched]
      have tame' := tame t List.mem_cons_self _ _ _ split' covers
      have reads := (split' ▸ origins t List.mem_cons_self).reads covers
      have offset : t.start.offset = (scanned (front ++ gap)).offset := by
        rw [covers.start, scanned_offset, Position.after_offset,
          Position.start_offset, Nat.zero_add]
      have place' : t.stop =
        Position.start.after (front ++ gap ++ body) := by rw [covers.stop, ← Position.after_append]
      have next := ih place' (by rw [split', List.append_assoc (front ++ gap)])
        (fun u member => origins u (List.mem_cons_of_mem t member))
        (fun u member => tame u (List.mem_cons_of_mem t member))
      generalize front ++ gap = behind at *
      rw [List.cons_append]
      by_cases opens : t.kind = b.opening
      · have code := ready'.code reads covers.nonempty (by rw [opens]; cases b <;> decide)
        cases reads.bracket (by rw [opens, b.opening_char])
        obtain ⟨mode, waiting, unmatched⟩ := step_opening watched code
        rw [← scanned_snoc] at mode waiting unmatched
        rw [Bracket.pair_opening opens, ← unmatched]
        exact next (.inl mode) (by rw [waiting, waits, List.map_cons, offset])
      by_cases closes : t.kind = b.closing
      · have code := ready'.code reads covers.nonempty (by rw [closes]; cases b <;> decide)
        cases reads.bracket (by rw [closes, b.closing_char])
        cases stack with
        | nil =>
            obtain ⟨mode, waiting, unmatched⟩ := step_closing_unmatched watched code waits
            rw [← scanned_snoc] at mode waiting unmatched
            rw [Bracket.pair_closing_unmatched closes]
            have none : (scanned (behind ++ [b.closingChar])).waiting b =
              List.map (·.start.offset) ([] : List Token) := waiting
            have later := next (.inl mode) none
            rw [unmatched, ← offset, List.append_assoc] at later
            exact later
        | cons first stack =>
            obtain ⟨mode, waiting, unmatched⟩ := step_closing watched code waits
            rw [← scanned_snoc] at mode waiting unmatched
            rw [Bracket.pair_closing closes, ← unmatched]
            exact next (.inl mode) waiting
      · obtain ⟨leaves, ready''⟩ := leaves_token reads covers.nonempty tame' ready' opens closes
        rw [Bracket.pair_other opens closes, ← leaves.unmatched]
        exact next ready'' (leaves.waiting.trans waits)

/-- Only closing brackets without a partner are noted on the way. -/
theorem scanned_codes (text : List Char) :
    ∀ e ∈ (scanned text).found, e.1 = .unmatchedBrace ∨ e.1 = .unmatchedParen := by
  induction text using List.reverseRecOn with
  | nil => simp [scanned]
  | append_singleton text c ih =>
      rw [scanned_snoc, step.eq_def]
      dsimp only
      repeat' split
      all_goals simpa using ih

end LineChecks.BracketScan

namespace Lint.Bracket

variable {b : Bracket}

/-- What is left over are tokens of the list, or openings that waited before. -/
theorem pair_mem (stack tokens : List Token) :
    (∀ t ∈ (b.pair stack tokens).1, t ∈ tokens ∧ t.kind = b.closing) ∧
      ∀ t ∈ (b.pair stack tokens).2, t ∈ stack ∨ t ∈ tokens ∧ t.kind = b.opening := by
  induction tokens generalizing stack with
  | nil => simp [pair]
  | cons t rest ih =>
      have later {u : Token} {kind : Kind} (h : u ∈ rest ∧ u.kind = kind) :
          u ∈ t :: rest ∧ u.kind = kind :=
        ⟨List.mem_cons_of_mem t h.1, h.2⟩
      by_cases opens : t.kind = b.opening
      · obtain ⟨closers, openers⟩ := ih (t :: stack)
        rw [pair_opening opens]
        refine ⟨fun u member => later (closers u member), ?_⟩
        intro u member
        rcases openers u member with waits | inside
        · rcases List.mem_cons.mp waits with rfl | older
          · exact .inr ⟨List.mem_cons_self, opens⟩
          · exact .inl older
        · exact .inr (later inside)
      by_cases closes : t.kind = b.closing
      · cases stack with
        | nil =>
            obtain ⟨closers, openers⟩ := ih []
            rw [pair_closing_unmatched closes]
            refine ⟨?_, fun u member => (openers u member).imp_right later⟩
            intro u member
            rcases List.mem_cons.mp member with rfl | behind
            · exact ⟨List.mem_cons_self, closes⟩
            · exact later (closers u behind)
        | cons first stack =>
            obtain ⟨closers, openers⟩ := ih stack
            rw [pair_closing closes]
            exact ⟨fun u member => later (closers u member),
              fun u member => (openers u member).imp (List.mem_cons_of_mem first) later⟩
      · obtain ⟨closers, openers⟩ := ih stack
        rw [pair_other opens closes]
        exact ⟨fun u member => later (closers u member),
          fun u member => (openers u member).imp_right later⟩

end Lint.Bracket

/-- Brackets without a partner, by kind. -/
inductive BracketFault where
  | unmatchedBrace | unmatchedParen | unclosedBrace | unclosedParen
deriving DecidableEq, Repr

namespace BracketFault

open Lint (Bracket)

/-- The finding of the linter; its findings about openings differ in the message only. -/
def byLint (f : BracketFault) (d : Diagnostic) : Bool :=
  match f with
  | unmatchedBrace => d.code = .unmatchedBrace
  | unmatchedParen => d.code = .unmatchedParen
  | unclosedBrace => d.code = .unclosedBracket && d.message = "Unclosed brace '\x7b'"
  | unclosedParen => d.code = .unclosedBracket && d.message = "Unclosed parenthesis '('"

/-- The finding of the line checks. -/
def byLines (f : BracketFault) (d : Diagnostic) : Bool :=
  match f with
  | unmatchedBrace => d.code = .unmatchedBrace
  | unmatchedParen => d.code = .unmatchedParen
  | unclosedBrace => d.code = .unclosedBrace
  | unclosedParen => d.code = .unclosedParen

/-- The tokens left over by matching, in the order of the script. -/
def tokens (f : BracketFault) (all : List Token) : List Token :=
  match f with
  | unmatchedBrace => (Bracket.brace.pair [] all).1
  | unmatchedParen => (Bracket.paren.pair [] all).1
  | unclosedBrace => (Bracket.brace.pair [] all).2.reverse
  | unclosedParen => (Bracket.paren.pair [] all).2.reverse

/-- The offsets left over by a scan, in the order of the script. -/
def offsets (f : BracketFault) (s : LineChecks.BracketScan) : List Nat :=
  match f with
  | unmatchedBrace => s.unmatchedAt .brace
  | unmatchedParen => s.unmatchedAt .paren
  | unclosedBrace => (s.waiting .brace).reverse
  | unclosedParen => (s.waiting .paren).reverse

theorem filter_lint (f : BracketFault) (all : List Token) :
    (([Bracket.brace, .paren, .square].flatMap fun b => b.findings all).filter f.byLint).map
    (·.range) = (f.tokens all).map Token.span := by
  cases f <;>
    simp [Bracket.findings, Bracket.unmatched, Bracket.unclosed, Diagnostic.lint, List.filter_map,
      Function.comp_def, byLint, tokens]

theorem filter_lines (f : BracketFault) (index : LineIndex) {s : LineChecks.BracketScan}
    (codes : ∀ e ∈ s.found, e.1 = .unmatchedBrace ∨ e.1 = .unmatchedParen) :
    ((s.findings.map fun (code, message, offset) => LineChecks.finding .error code message
      ⟨index.position offset, index.position (offset + 1)⟩).filter f.byLines).map (·.range) =
        (f.offsets s).map fun offset => ⟨index.position offset, index.position (offset + 1)⟩ := by
  have other {code : Code} (apart : code ≠ .unmatchedBrace ∧ code ≠ .unmatchedParen) :
      ∀ e ∈ s.found, e.1 ≠ code := by
    rintro e member rfl
    exact (codes e member).elim apart.1 apart.2
  cases f <;>
    simp [LineChecks.BracketScan.findings, LineChecks.finding, List.filter_map, Function.comp_def,
      byLines, offsets, LineChecks.BracketScan.unmatchedAt, LineChecks.BracketScan.unmatchedCode,
      LineChecks.BracketScan.waiting]
  case unmatchedBrace => rfl
  case unmatchedParen => rfl
  case unclosedBrace => exact fun _ _ _ member => other (by decide) _ member
  case unclosedParen => exact fun _ _ _ member => other (by decide) _ member

end BracketFault

/-- A script in which strings, comments and hotkeys are read alike by tokens and by characters: no
string runs over a line, no quote outside comments stands behind a backtick, comments start the
script or stand behind white space, and hotkeys hold no brace and no parenthesis. -/
structure ReadAlike (source : String) (tokens : List Token) : Prop where
  strings : ∀ t ∈ tokens, t.kind = .string → t.start.line = t.stop.line
  quotes : ∀ front back, source.toList = front ++ back → ['`', '"'] <+: back →
    ∃ t ∈ tokens, t.kind = .comment ∧ t.start.offset ≤ Text.byteLength front + 1 ∧
      Text.byteLength front + 1 < t.stop.offset
  comments : ∀ t ∈ tokens, t.kind = .comment → t.start.offset = 0 ∨
    ∃ front back, source.toList = front ++ back ∧ t.start.offset = Text.byteLength front ∧
      front.getLast?.any Text.isSpace = true
  hotkeys : ∀ t ∈ tokens, t.kind = .hotkey → ∀ text,
    Text.slice? source.toList t.start.offset t.stop.offset = some text →
      ∀ c ∈ text, c ∉ ['\x7b', '\x7d', '(', ')']

instance (source : String) (tokens : List Token) : Decidable (ReadAlike source tokens) :=
  decidable_of_iff ((∀ t ∈ tokens, t.kind = .string → t.start.line = t.stop.line) ∧
      (∀ n ∈ List.range (source.toList.length + 1), ['`', '"'] <+: source.toList.drop n →
        ∃ t ∈ tokens, t.kind = .comment ∧ t.start.offset ≤ Text.byteLength (source.toList.take n) +
        1 ∧ Text.byteLength (source.toList.take n) + 1 < t.stop.offset) ∧ (∀ t ∈ tokens,
      t.kind = .comment → t.start.offset = 0 ∨ ∃ n ∈ List.range (source.toList.length + 1),
        t.start.offset = Text.byteLength (source.toList.take n) ∧
          (source.toList.take n).getLast?.any Text.isSpace = true) ∧ ∀ t ∈ tokens,
      t.kind = .hotkey → ∀ text ∈ Text.slice? source.toList t.start.offset t.stop.offset,
        (text.all fun c => c ∉ ['\x7b', '\x7d', '(', ')']) = true)
    ⟨fun ⟨strings, quotes, comments, hotkeys⟩ => ⟨strings, Text.forall_split_iff.mpr quotes,
        fun t member kind => (comments t member kind).imp_right Text.exists_split_iff.mpr,
        fun t member kind text cut => by simpa using hotkeys t member kind text cut⟩,
      fun alike => ⟨alike.strings, Text.forall_split_iff.mp alike.quotes,
        fun t member kind => (alike.comments t member kind).imp_right Text.exists_split_iff.mp,
        fun t member kind text cut => by simpa using alike.hotkeys t member kind text cut⟩⟩

namespace ReadAlike

open LineChecks.BracketScan
open Lint (Bracket)

variable {source : String} {front : List Token} {last t u : Token} {b : Bracket}
  {before body behind : List Char}

/-- A quote inside a token that is no comment does not stand behind a backtick. -/
theorem unescaped (alike : ReadAlike source (front ++ [last])) (scanned : Scanned source front last)
    (member : t ∈ front)
    (other : t.kind ≠ .comment) (split : source.toList = before ++ (body ++ behind))
    (covers : t.Covers (Position.start.after before) body) {x y : List Char}
    (inside : body = x ++ '"' :: y) : (before ++ x).getLast? ≠ some '`' := by
  intro tick
  obtain ⟨z, same⟩ := List.getLast?_eq_some_iff.mp tick
  have whole : source.toList = z ++ (['`', '"'] ++ (y ++ behind)) := by
    rw [split, inside, List.append_assoc, ← List.append_assoc before, same]
    simp
  obtain ⟨u, known, comment, first, final⟩ := alike.quotes z _ whole (List.prefix_append _ _)
  have inFront : u ∈ front := by
    rcases List.mem_append.mp known with inside | final
    · exact inside
    · rw [List.mem_singleton.mp final, scanned.closing] at comment
      cases comment
  -- both tokens cover the quote, and no two tokens overlap
  have size := congrArg Text.byteLength same
  have start : t.start.offset = Text.byteLength before := by rw [covers.start]; simp
  have stop :
    t.stop.offset = Text.byteLength before + Text.byteLength body := by rw [covers.stop]; simp
  have tick' : Text.byteLength ['`'] = 1 := rfl
  have quote : Text.byteLength ('"' :: y) = 1 + Text.byteLength y := Text.byteLength_cons _ _
  rw [Text.byteLength_append, Text.byteLength_append, tick'] at size
  rw [inside, Text.byteLength_append, quote] at stop
  have different : t ≠ u := by
    rintro rfl
    exact other comment
  have apart := either_of_pairwise scanned.tiled.ordered member inFront different
  omega

/-- The character before a comment is white space. -/
theorem spaced (alike : ReadAlike source (front ++ [last])) (member : t ∈ front)
    (comment : t.kind = .comment) (split : source.toList = before ++ (body ++ behind))
    (covers : t.Covers (Position.start.after before) body) :
    ∀ c ∈ before.getLast?, Text.isSpace c = true := by
  intro c tail
  have start : t.start.offset = Text.byteLength before := by rw [covers.start]; simp
  rcases alike.comments t
    (List.mem_append_left _ member) comment with first | ⟨lead, rest, whole, place, space⟩
  · have nonempty : before ≠ [] := by
      rintro rfl
      cases tail
    have positive := Text.byteLength_pos nonempty
    omega
  · obtain ⟨rfl, _⟩ := Text.append_inj_of_byteLength (split.symm.trans whole) (by omega)
    rw [tail] at space
    exact space

theorem tame (alike : ReadAlike source (front ++ [last])) (scanned : Scanned source front last)
    (watched : b ≠ .square)
    (member : t ∈ front) (split : source.toList = before ++ (body ++ behind))
    (covers : t.Covers (Position.start.after before) body) : Tame b t before body := by
  have member' : t ∈ front ++ [last] := List.mem_append_left _ member
  refine ⟨?_, fun other x y => alike.unescaped scanned member other split covers, fun comment =>
    alike.spaced member comment split covers, ?_⟩
  · intro string feed
    have line := alike.strings t member' string
    have some : 0 < body.count '\n' := List.count_pos_iff.mpr feed
    rw [covers.stop, covers.start, Position.after_line _ body] at line
    omega
  · intro hotkey c inside
    have cut : Text.slice? source.toList t.start.offset t.stop.offset = some body := by
      rw [split]
      exact covers.slice? (by simp)
    have plain := alike.hotkeys t member' hotkey body cut c inside
    simp only [List.mem_cons, List.not_mem_nil, or_false, not_or] at plain
    cases b with
    | brace => exact ⟨plain.1, plain.2.1⟩
    | paren => exact ⟨plain.2.2.1, plain.2.2.2⟩
    | square => contradiction

end ReadAlike

/-- A bracket covers the character at its offset. -/
theorem Scanned.span_bracket {source : String} {front : List Token} {last t : Token}
    {b : Lint.Bracket} (h : Scanned source front last)
    (member : t ∈ front) (kind : t.kind = b.opening ∨ t.kind = b.closing) :
    (⟨(LineIndex.ofSource source).position t.start.offset,
      (LineIndex.ofSource source).position (t.start.offset + 1)⟩ : Span) = t.span := by
  obtain ⟨before, body, behind, whole, covers⟩ := h.tiled.place member
  have reads := (whole ▸ h.origins t member).reads covers
  have one : Text.byteLength body = 1 := by
    rcases kind with opens | closes
    · rw [reads.bracket (by rw [opens, b.opening_char])]
      cases b <;> rfl
    · rw [reads.bracket (by rw [closes, b.closing_char])]
      cases b <;> rfl
  have stop : t.stop.offset =
    t.start.offset + 1 := by rw [covers.stop, covers.start, Position.after_offset, one]
  have located := tokens_located source
  rw [(fault_of_tokenize h.tokens).2] at located
  obtain ⟨first, final⟩ := located.1 t (List.mem_append_left _ member)
  rw [← stop, first.indexed, final.indexed]
  rfl

theorem BracketFault.offsets_scanned {source : String} {front : List Token} {last : Token}
    (alike : ReadAlike source (front ++ [last])) (h : Scanned source front last)
    (f : BracketFault) : f.offsets (LineChecks.BracketScan.scanned source.toList) =
    (f.tokens (front ++ [last])).map (·.start.offset) := by
  have counts {b : Lint.Bracket} (watched : b ≠ .square) :
      (LineChecks.BracketScan.scanned source.toList).waiting b =
      (b.pair [] (front ++ [last])).2.map (·.start.offset) ∧
        (LineChecks.BracketScan.scanned source.toList).unmatchedAt b =
          (b.pair [] (front ++ [last])).1.map (·.start.offset) := by
    have place : Position.start = Position.start.after [] := rfl
    have none : (LineChecks.BracketScan.scanned []).waiting b =
        List.map (·.start.offset) ([] : List Token) := by
      cases b <;> rfl
    exact LineChecks.BracketScan.scanned_tiled watched h.closing h.tiled place rfl h.origins
      (fun t member _ _ _ split covers => alike.tame h watched member split covers) (.inl rfl) none
  obtain ⟨braces, brace⟩ := counts (b := .brace) (by decide)
  obtain ⟨parens, paren⟩ := counts (b := .paren) (by decide)
  cases f with
  | unmatchedBrace => exact brace
  | unmatchedParen => exact paren
  | unclosedBrace => rw [offsets, tokens, braces, List.map_reverse]
  | unclosedParen => rw [offsets, tokens, parens, List.map_reverse]

/-- What is left over are brackets of the script. -/
theorem BracketFault.mem_tokens {f : BracketFault} {all : List Token} {t : Token}
    (member : t ∈ f.tokens all) :
    t ∈ all ∧ ∃ b : Lint.Bracket, t.kind = b.opening ∨ t.kind = b.closing := by
  have closers {b : Lint.Bracket} (inside : t ∈ (b.pair [] all).1) :
      t ∈ all ∧ ∃ b : Lint.Bracket, t.kind = b.opening ∨ t.kind = b.closing :=
    ((Lint.Bracket.pair_mem [] all).1 t inside).imp_right fun kind => ⟨b, .inr kind⟩
  have openers {b : Lint.Bracket} (inside : t ∈ (b.pair [] all).2.reverse) :
      t ∈ all ∧ ∃ b : Lint.Bracket, t.kind = b.opening ∨ t.kind = b.closing := by
    rcases (Lint.Bracket.pair_mem [] all).2 t (List.mem_reverse.mp inside) with none | found
    · cases none
    · exact found.imp_right fun kind => ⟨b, .inl kind⟩
  cases f with
  | unmatchedBrace => exact closers member
  | unmatchedParen => exact closers member
  | unclosedBrace => exact openers member
  | unclosedParen => exact openers member

/-- The two bracket checks agree on every script that both read alike: for each fault they report
the same ranges, in the same order. -/
theorem brackets_agree {source : String} {tokens : List Token}
    (lexes : tokenize source = .ok tokens) (alike : ReadAlike source tokens) (f : BracketFault) :
    ((Lint.brackets tokens).filter f.byLint).map (·.range) =
      ((LineChecks.brackets (.ofSource source)).filter f.byLines).map (·.range) := by
  obtain ⟨front, last, rfl, scanned⟩ := tokenize_scanned lexes
  have codes := LineChecks.BracketScan.scanned_codes source.toList
  have places : ∀ t ∈ f.tokens (front ++ [last]),
      (⟨(LineIndex.ofSource source).position t.start.offset,
      (LineIndex.ofSource source).position (t.start.offset + 1)⟩ : Span) = t.span := by
    intro t member
    obtain ⟨known, b, kind⟩ := BracketFault.mem_tokens member
    rcases List.mem_append.mp known with inside | final
    · exact scanned.span_bracket inside kind
    · rw [List.mem_singleton.mp final, scanned.closing] at kind
      cases b <;> simp [Lint.Bracket.opening, Lint.Bracket.closing] at kind
  rw [Lint.brackets, Diagnostic.ranges_inOrder, f.filter_lint, LineChecks.brackets,
    Diagnostic.ranges_inOrder]
  have lines := f.filter_lines (LineIndex.ofSource source) codes
  rw [BracketFault.offsets_scanned alike scanned f, List.map_map] at lines
  exact congrArg _ ((List.map_congr_left places).symm.trans lines.symm)

/-- Brackets of each fault beside ones in comments and in a string, behind a hotkey. -/
theorem brackets_agree_mixed :
    ∃ tokens, tokenize "; (`\"\x7b\nx := \"a(\" ; )\n^j::\n) \x7d\nf( \x7b" = .ok tokens ∧
    ReadAlike "; (`\"\x7b\nx := \"a(\" ; )\n^j::\n) \x7d\nf( \x7b" tokens ∧
    (∀ f : BracketFault, ((Lint.brackets tokens).filter f.byLint).map (·.range) =
      ((LineChecks.brackets (.ofSource "; (`\"\x7b\nx := \"a(\" ; )\n^j::\n) \x7d\nf( \x7b")).filter
        f.byLines).map (·.range)) ∧
    ([.unmatchedBrace, .unmatchedParen, .unclosedBrace, .unclosedParen].map fun f : BracketFault =>
      ((Lint.brackets tokens).filter f.byLint).map (·.range.start)) =
      [[⟨4, 3, 28⟩], [⟨4, 1, 26⟩], [⟨5, 4, 33⟩], [⟨5, 2, 31⟩]] := by
  have lexes : tokenize "; (`\"\x7b\nx := \"a(\" ; )\n^j::\n) \x7d\nf( \x7b" =
    .ok (scan "; (`\"\x7b\nx := \"a(\" ; )\n^j::\n) \x7d\nf( \x7b").tokens := by decide +kernel
  have alike : ReadAlike "; (`\"\x7b\nx := \"a(\" ; )\n^j::\n) \x7d\nf( \x7b"
    (scan "; (`\"\x7b\nx := \"a(\" ; )\n^j::\n) \x7d\nf( \x7b").tokens := by decide +kernel
  exact ⟨_, lexes, alike, brackets_agree lexes alike, by decide +kernel⟩

end ScriptLens
