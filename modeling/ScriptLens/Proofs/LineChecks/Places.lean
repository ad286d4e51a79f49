import ScriptLens.LineChecks
import ScriptLens.Proofs.Lint.Widths
import ScriptLens.Proofs.Text.Matching

/-!
Every finding points at real source. The line checks look places up by byte offsets that they find
in lines, and the standards by columns that they count; each of these falls where the line still
goes on, so no look-up has to be cut.
-/

namespace ScriptLens

namespace Text

variable {part text front back : List Char}

theorem before?_split (h : before? part text = some front) :
    ∃ back, text = front ++ (part ++ back) := by
  induction text generalizing front with
  | nil =>
      rw [before?] at h
      obtain ⟨empty, same⟩ := Option.ite_none_right_eq_some.mp h
      cases same
      exact ⟨[], by rw [empty]; rfl⟩
  | cons c text ih =>
      rw [before?] at h
      split at h
      · next here =>
          cases h
          obtain ⟨back, whole⟩ := List.isPrefixOf_iff_prefix.mp here
          exact ⟨back, whole.symm⟩
      · obtain ⟨rest, found, rfl⟩ := Option.map_eq_some_iff.mp h
        obtain ⟨back, rfl⟩ := ih found
        exact ⟨back, rfl⟩

/-- The first occurrence of a part is not behind any other. -/
theorem before?_least (h : text = front ++ (part ++ back)) :
    ∃ first, before? part text = some first ∧ first.length ≤ front.length := by
  induction front generalizing text with
  | nil =>
      refine ⟨[], ?_, Nat.le_refl _⟩
      rw [h, List.nil_append]
      cases whole : part ++ back with
      | nil => rw [before?, if_pos (List.append_eq_nil_iff.mp whole).1]
      | cons c rest => rw [before?, if_pos (List.isPrefixOf_iff_prefix.mpr ⟨back, whole⟩)]
  | cons c front ih =>
      obtain ⟨first, found, least⟩ := ih rfl
      rw [h, List.cons_append, before?]
      split
      · exact ⟨[], rfl, Nat.zero_le _⟩
      · exact ⟨c :: first, by rw [found]; rfl, Nat.succ_le_succ least⟩

/-- Behind a trimmed text only white space was cut off. -/
theorem trimStart_split (text : List Char) : ∃ after, trimStart text = trim text ++ after ∧
    ∀ c ∈ after, isSpace c = true := by
  refine ⟨((trimStart text).reverse.takeWhile isSpace).reverse, ?_, ?_⟩
  · rw [trim, trimEnd, ← List.reverse_append, List.takeWhile_append_dropWhile, List.reverse_reverse]
  · intro c member
    exact List.mem_takeWhile_imp (List.mem_reverse.mp member)

end Text

namespace LineChecks

open Text (Pattern LineAt IsBoundary)

namespace BracketScan

/-- The offsets of the brackets that a scan tells of or still waits for. -/
def offsets (s : BracketScan) : List Nat := s.found.map (·.2.2) ++ s.braces ++ s.parens

theorem offsets_step (s : BracketScan) (c : Char) {n : Nat} (member : n ∈ (s.step c).offsets) :
    n ∈ s.offsets ∨ n = s.offset ∧ c.utf8Size = 1 ∧ c ≠ '\n' := by
  have took := step_spec s c
  generalize s.step c = t at took member
  simp only [offsets, List.mem_append] at member ⊢
  cases took with
  | reading => exact .inl member
  | openBrace char | openParen char | strayBrace char | strayParen char =>
      have own : c.utf8Size = 1 ∧ c ≠ '\n' := by
        subst char
        decide
      simp only [past, List.map_cons, List.mem_cons] at member
      tauto
  | closeBrace char waits | closeParen char waits =>
      rw [waits]
      simp only [past, List.mem_cons] at member ⊢
      tauto

/-- Each offset is that of a character of one byte. -/
theorem offsets_scanned {text : List Char} {n : Nat} (member : n ∈ (scanned text).offsets) :
    ∃ front c back, text = front ++ ([c] ++ back) ∧ n = Text.byteLength front ∧
    Text.byteLength [c] = 1 ∧ c ≠ '\n' := by
  induction text using List.reverseRecOn with
  | nil => cases member
  | append_singleton text c ih =>
      rw [scanned_snoc] at member
      rcases offsets_step _ c member with older | ⟨rfl, size, line⟩
      · obtain ⟨front, d, back, rfl, place, one⟩ := ih older
        exact ⟨front, d, back ++ [c], by simp, place, one⟩
      · exact ⟨text, c, [], rfl,
          scanned_offset text, by rw [Text.byteLength_cons, size, Text.byteLength_nil], line⟩

theorem findings_offset {s : BracketScan} {f : Code × String × Nat} (member : f ∈ s.findings) :
    f.2.2 ∈ s.offsets := by
  simp only [findings, offsets, List.mem_append, List.mem_map, List.mem_reverse] at member ⊢
  rcases member with (found | ⟨n, brace, rfl⟩) | ⟨n, paren, rfl⟩
  · exact .inl (.inl ⟨f, found, rfl⟩)
  · exact .inl (.inr brace)
  · exact .inr paren

end BracketScan

theorem brackets_ranges (text : List Char) : ∀ d ∈ brackets (.ofText text), d.range.In text := by
  intro d member
  obtain ⟨⟨code, message, n⟩, found, rfl⟩ := List.mem_map.mp (Diagnostic.mem_inOrder.mp member)
  obtain ⟨front, c, back, split, place, size, _⟩ :=
    BracketScan.offsets_scanned (BracketScan.findings_offset found)
  dsimp only at place
  replace split : text = front ++ ([c] ++ back) := split
  have range := LineIndex.positions split
  rw [size, ← place] at range
  change (Span.mk _ _).In text
  rw [range]
  exact Span.in_part split

section Lines

variable {text front line back : List Char} {number : Nat}

/-- A part of a line as it is looked up by bytes. -/
structure Looked (text : List Char) (number first length : Nat) : Prop where
  start : IsBoundary text ((LineIndex.ofText text).lineStart number + first)
  stop : IsBoundary text ((LineIndex.ofText text).lineStart number + first + length)
  range : (lineSpan (.ofText text) number first length).In text

/-- A part of a line stands behind what is in front of it. -/
theorem lineSpan_part (h : LineAt text number front line back) {before part after : List Char}
    (split : line = before ++ (part ++ after)) :
    lineSpan (.ofText text) number (Text.byteLength before) (Text.byteLength part) =
      ⟨Position.start.after (front ++ before), Position.start.after (front ++ before ++ part)⟩ := by
  have whole : text = (front ++ before) ++ (part ++ (after ++ back)) := by
    rw [h.split, split]
    simp
  rw [lineSpan, h.lineStart, ← LineIndex.positions whole, Text.byteLength_append]

theorem looked_part (h : LineAt text number front line back) {before part after : List Char}
    (split : line = before ++ (part ++ after)) :
    Looked text number (Text.byteLength before) (Text.byteLength part) := by
  have whole : text = (front ++ before) ++ (part ++ (after ++ back)) := by
    rw [h.split, split]
    simp
  constructor
  · rw [h.lineStart, ← Text.byteLength_append, IsBoundary, whole, Text.dropBytes?_append]
    rfl
  · rw [h.lineStart, ← Text.byteLength_append, ← Text.byteLength_append, IsBoundary, whole,
      ← List.append_assoc, Text.dropBytes?_append]
    rfl
  · rw [lineSpan_part h split]
    exact Span.in_part whole

theorem looked_first (h : LineAt text number front line back) {part first : List Char}
    (found : Text.before? part line = some first) :
    Looked text number (bytesBefore part line) (Text.byteLength part) := by
  obtain ⟨after, split⟩ := Text.before?_split found
  rw [bytesBefore, found, Option.getD_some]
  exact looked_part h split

/-- A part that starts with another character than those in front of it is found behind them. -/
theorem before?_behind {d : Char} {part gap after : List Char} (apart : d ∉ gap) :
    Text.before? (d :: part) (gap ++ (d :: part ++ after)) = some gap := by
  induction gap with
  | nil =>
      rw [List.nil_append, List.cons_append, Text.before?, if_pos]
      exact List.isPrefixOf_iff_prefix.mpr ⟨after, rfl⟩
  | cons c gap ih =>
      rw [List.mem_cons, not_or] at apart
      have other : ¬(d :: part).isPrefixOf (c :: (gap ++ (d :: part ++ after))) = true := by
        rw [List.isPrefixOf_iff_prefix, List.cons_prefix_cons]
        exact fun same => apart.1 same.1
      rw [List.cons_append, Text.before?, if_neg other, ih apart.2]
      rfl

/-- In front of the first equals sign of an assignment stand white space and a word, and behind it
something more. -/
theorem legacyAssignment_lead (h : Standards.isLegacyAssignment line = true) : ∃ m lead rest,
    Standards.equalsValue.match? line = some m ∧ (m.pieces.take 3).flatten = lead ∧
    Text.before? ['='] line = some lead ∧ line = lead ++ (['='] ++ rest) ∧ 1 ≤ rest.length ∧
      ∀ c ∈ lead, Text.isSpace c = true ∨ Text.isWord c = true := by
  obtain ⟨m, found⟩ := Option.isSome_iff_exists.mp (Bool.and_eq_true_iff.mp h).1
  have spells := Pattern.matchHere_sound Standards.equalsValue _ _ _ found
  unfold Standards.equalsValue at spells
  -- the pieces in front of the sign, the sign, and the piece that ends with the character behind it
  rcases spells with _ | @⟨_, _, gap, _, _, _, blank, spells⟩
  rcases spells with _ | @⟨_, _, word, _, _, _, inside, spells⟩
  rcases spells with _ | @⟨_, _, gap', _, _, _, blank', spells⟩
  rcases spells with _ | @⟨_, _, sign, rest, _, _, equals, spells⟩
  obtain ⟨c, rfl, same⟩ := equals
  have sign : c = '=' := of_decide_eq_true same
  have lead : ∀ d ∈ gap ++ (word ++ gap'), Text.isSpace d = true ∨ Text.isWord d = true := by
    simp only [List.mem_append]
    rintro d (ahead | name | trail)
    · exact .inl (blank d ahead)
    · exact .inr (inside.2 d name)
    · exact .inl (blank' d trail)
  have apart : '=' ∉ gap ++ (word ++ gap') := by
    intro member
    rcases lead '=' member with space | name
    · cases space
    · cases name
  have whole : gap ++ (word ++ (gap' ++ ([c] ++ rest))) =
    gap ++ (word ++ gap') ++ (['='] ++ rest) := by simp [sign]
  have first : Text.before? ['='] (gap ++ (word ++ gap') ++ (['='] ++ rest)) =
      some (gap ++ (word ++ gap')) :=
    before?_behind apart
  exact ⟨_, _, rest, found, by simp, whole ▸ first, whole, spells.least_le, lead⟩

/-- A line that assigns by an equals sign goes on behind the first one. -/
theorem legacyAssignment_parts (h : Standards.isLegacyAssignment line = true) :
    ∃ first, Text.before? ['='] line = some first ∧ first.length + 2 ≤ line.length := by
  obtain ⟨m, lead, rest, -, -, first, rfl, more, -⟩ := legacyAssignment_lead h
  refine ⟨lead, first, ?_⟩
  simp only [List.length_append, List.length_singleton]
  omega

/-- The name in the header of a function is a part of its line. -/
theorem declaredFunction_part {next : Option (List Char)} {name : List Char}
    (h : declaredFunction? line next = some name) :
    ∃ first, Text.before? name line = some first := by
  obtain ⟨m, found, opens⟩ := Option.bind_eq_some_iff.mp h
  obtain ⟨_, taken⟩ := Option.ite_none_right_eq_some.mp opens
  clear opens
  have spells := Pattern.matchHere_sound functionHeader _ _ _ found
  unfold functionHeader at spells
  rcases spells with _ | @⟨_, _, gap, _, _, _, _, spells⟩
  rcases spells with _ | @⟨_, _, word, rest, _, _, _, spells⟩
  obtain rfl : word = name := Option.some.inj taken
  have whole : gap ++ (word ++ rest) = gap ++ (word ++ rest) := rfl
  obtain ⟨first, here, _⟩ := Text.before?_least whole
  exact ⟨first, here⟩

/-- The trigger of a hotkey stands behind the white space at the start of its line, and the colons
behind the trigger. -/
theorem emptyHotkey_part {trigger : List Char}
    (stripped : Text.stripEnding? [':', ':'] (Text.trim line) = some trigger)
    (shown : Text.isVoid trigger = false) : ∃ gap after,
    line = gap ++ (Text.trim line ++ after) ∧ Text.before? trigger line = some gap := by
  obtain ⟨ends, taken⟩ := Option.ite_none_right_eq_some.mp stripped
  obtain ⟨front, whole⟩ := List.isSuffixOf_iff_suffix.mp ends
  have same : front = trigger := by
    rw [← whole] at taken
    simpa using taken
  subst same
  obtain ⟨gap, split⟩ : ∃ gap, gap = line.takeWhile Text.isSpace := ⟨_, rfl⟩
  have start : line = gap ++ Text.trimStart line := split ▸ List.takeWhile_append_dropWhile.symm
  obtain ⟨after, rest, _⟩ := Text.trimStart_split line
  refine ⟨gap, after, rest ▸ start, ?_⟩
  cases front with
  | nil => cases shown
  | cons d front =>
      have first : (Text.trimStart line).head? = some d := by
        rw [rest, ← whole]
        rfl
      have solid : Text.isSpace d = false := Text.dropWhile_stops first
      have apart : d ∉ gap := by
        intro member
        have blank : Text.isSpace d = true := List.mem_takeWhile_imp (split ▸ member)
        rw [blank] at solid
        cases solid
      have found : Text.before? (d :: front) (gap ++ (d :: front ++ ([':', ':'] ++ after))) =
        some gap := before?_behind apart
      rwa [← List.append_assoc (d :: front), whole, ← rest, ← start] at found

/-- The findings about a line are about parts of it. -/
theorem lineFindings_ranges (h : LineAt text number front line back) {next : Option (List Char)} :
    ∀ d ∈ lineFindings (.ofText text) number line next, d.range.In text := by
  intro d member
  unfold lineFindings at member
  split at member
  · cases member
  · split at member
    · cases member
    simp only [List.mem_append] at member
    rcases member with (assignment | naming) | hotkey
    · unfold legacyAssignment at assignment
      split at assignment
      · next assigns =>
          obtain ⟨first, found, _⟩ := legacyAssignment_parts assigns
          rw [List.mem_singleton.mp assignment]
          exact (looked_first h found).range
      · cases assignment
    · unfold functionNaming at naming
      split at naming
      · next name declared =>
          split at naming
          · obtain ⟨first, found⟩ := declaredFunction_part declared
            rw [List.mem_singleton.mp naming]
            exact (looked_first h found).range
          · cases naming
      · cases naming
    · unfold emptyHotkey at hotkey
      dsimp only at hotkey
      split at hotkey
      · next trigger stripped =>
          split at hotkey
          · next shown =>
              have shown :
                Text.isVoid trigger = false := by simpa using (Bool.and_eq_true_iff.mp shown).2
              obtain ⟨gap, after, split, found⟩ := emptyHotkey_part stripped shown
              have looked := looked_part h split
              rw [List.mem_singleton.mp hotkey]
              rw [bytesBefore, found, Option.getD_some]
              exact looked.range
          · cases hotkey
      · cases hotkey

theorem linesFrom_lines {index : LineIndex} {lines : List (List Char)} {d : Diagnostic}
    (member : d ∈ linesFrom index number lines) : ∃ (i : Nat) (line : List Char),
    lines[i]? = some line ∧ d ∈ lineFindings index (number + i) line lines[i + 1]? := by
  induction lines generalizing number with
  | nil => cases member
  | cons line rest ih =>
      rw [linesFrom] at member
      rcases List.mem_append.mp member with here | later
      · refine ⟨0, line, rfl, ?_⟩
        rw [List.head?_eq_getElem?] at here
        exact here
      · obtain ⟨i, line, place, found⟩ := ih later
        exact ⟨i + 1, line, place, by rwa [Nat.add_assoc, Nat.add_comm 1] at found⟩

end Lines

section Rules

open Standards

variable {line : List Char} {hit : Hit}

theorem columnOf_inside {part : String} {column : Nat} (h : columnOf? part line = some column) :
    column + part.toList.length ≤ line.length := by
  obtain ⟨first, found, rfl⟩ := Option.map_eq_some_iff.mp h
  obtain ⟨rest, rfl⟩ := Text.before?_split found
  simp only [List.length_append]
  omega

theorem search_inside {p : Pattern} {skipped : List Char} {m : Pattern.Match}
    (h : p.search? line = some (skipped, m)) :
    skipped.length + (p.map Pattern.leastTaken).sum ≤ line.length := by
  obtain ⟨rest, rfl, spells⟩ := Pattern.searchFrom_sound h
  have least := spells.least_le
  rw [List.length_append]
  omega

/-- Where a rule hits a line, two more characters follow. -/
theorem hit_inside {rule : Rule} (member : rule ∈ rules) (h : rule.check line = some hit) :
    hit.column + 2 ≤ line.length := by
  simp only [rules, List.mem_cons, List.not_mem_nil, or_false] at member
  rcases member with rfl | rfl | rfl | rfl | rfl | rfl | rfl
  · obtain ⟨_, h⟩ := Option.ite_none_left_eq_some.mp h
    obtain ⟨⟨before, m⟩, found, rfl⟩ := Option.map_eq_some_iff.mp h
    have inside := search_inside found
    have least : 2 ≤ (objectLiteral.map Pattern.leastTaken).sum := by decide
    dsimp only
    omega
  · obtain ⟨⟨before, m⟩, found, rfl⟩ := Option.map_eq_some_iff.mp h
    have inside := search_inside found
    have least : 2 ≤ (newInstance.map Pattern.leastTaken).sum := by decide
    dsimp only
    omega
  · obtain ⟨assigns, h⟩ := Option.ite_none_right_eq_some.mp h
    obtain ⟨column, found, rfl⟩ := Option.map_eq_some_iff.mp h
    obtain ⟨first, here, rfl⟩ := Option.map_eq_some_iff.mp found
    obtain ⟨first', here', inside⟩ := legacyAssignment_parts assigns
    have same : some first = some first' := here.symm.trans here'
    cases same
    exact inside
  · obtain ⟨column, found, rfl⟩ := Option.map_eq_some_iff.mp h
    rcases Option.or_eq_some_iff.mp found with double | ⟨_, single⟩
    · exact columnOf_inside double
    · exact columnOf_inside single
  · obtain ⟨_, h⟩ := Option.ite_none_right_eq_some.mp h
    obtain ⟨column, found, rfl⟩ := Option.map_eq_some_iff.mp h
    exact columnOf_inside found
  · obtain ⟨_, h⟩ := Option.ite_none_left_eq_some.mp h
    obtain ⟨name, _, h⟩ := Option.bind_eq_some_iff.mp h
    obtain ⟨column, found, same⟩ := Option.bind_eq_some_iff.mp h
    cases same
    have inside := columnOf_inside found
    have length : "this.".toList.length = 5 := by decide
    dsimp only
    omega
  · obtain ⟨_, h⟩ := Option.ite_none_right_eq_some.mp h
    obtain ⟨column, found, rfl⟩ := Option.map_eq_some_iff.mp h
    exact columnOf_inside found

/-- A violation is what a rule says about a line of the script. -/
theorem mem_validate {source : String} {v : Violation} (member : v ∈ validate source) :
    ∃ (i : Nat) (line : List Char) (rule : Rule) (hit : Hit),
    (Text.lines source.toList)[i]? = some line ∧ rule ∈ rules ∧ rule.check line = some hit ∧
      v = ⟨rule.name, rule.message, i + 1, hit.column.toUInt32, rule.severity,
        some hit.suggestion⟩ := by
  obtain ⟨⟨line, i⟩, here, found⟩ := List.mem_flatMap.mp member
  unfold lineViolations at found
  dsimp only at found
  split at found
  · cases found
  · obtain ⟨rule, among, breaks⟩ := List.mem_filterMap.mp found
    obtain ⟨hit, hits, same⟩ := Option.map_eq_some_iff.mp breaks
    exact ⟨i, line, rule, hit, List.mem_zipIdx_iff_getElem?.mp here, among, hits, same.symm⟩

/-- A violation is about a line of the script. Two more characters follow its column there, where
the line is not too long to count them in a word. -/
theorem violation_inside {source : String} {v : Violation} (member : v ∈ validate source) :
    ∃ (i : Nat) (line : List Char), (Text.lines source.toList)[i]? = some line ∧ v.line = i + 1 ∧
      (line.length < 2 ^ 32 → v.column.toNat + 2 ≤ line.length) := by
  obtain ⟨i, line, rule, hit, here, among, hits, rfl⟩ := mem_validate member
  refine ⟨i, line, here, rfl, fun small => ?_⟩
  have inside := hit_inside among hits
  have word : hit.column.toUInt32.toNat = hit.column :=
    toNat_toUInt32 (show hit.column < 2 ^ 32 by omega)
  dsimp only
  rwa [word]

end Rules

/-- What the checks of a script look up, and what is cut out of it between tokens, lies between
characters of it. -/
structure LookUps (source : String) : Prop where
  /-- A bracket is looked up at its offset and one byte behind it. -/
  brackets : ∀ f ∈ (source.toList.foldl BracketScan.step {}).findings,
    IsBoundary source.toList f.2.2 ∧ IsBoundary source.toList (f.2.2 + 1)
  lines : ∀ line, IsBoundary source.toList ((LineIndex.ofSource source).lineStart line)
  assignments : ∀ i line, (Text.lines source.toList)[i]? = some line →
    Standards.isLegacyAssignment line = true →
    Looked source.toList (i + 1) (bytesBefore ['='] line) 1
  names : ∀ i line name, (Text.lines source.toList)[i]? = some line →
    declaredFunction? line (Text.lines source.toList)[i + 1]? = some name →
    Looked source.toList (i + 1) (bytesBefore name line) (Text.byteLength name)
  hotkeys : ∀ i line trigger, (Text.lines source.toList)[i]? = some line →
    Text.stripEnding? [':', ':'] (Text.trim line) = some trigger → Text.isVoid trigger = false →
    Looked source.toList (i + 1) (bytesBefore trigger line) (Text.byteLength (Text.trim line))
  /-- Both columns of a violation fit their words and are those of characters on its line. -/
  columns : ∀ v ∈ Standards.validate source, ∃ line,
    (Text.lines source.toList)[v.line - 1]? = some line ∧ 1 ≤ v.line ∧
    v.column.toNat + 2 < 2 ^ 32 ∧ v.column.toNat + 2 ≤ line.length
  tokens : ∀ t ∈ (scan source).tokens,
    (Text.slice? source.toList t.start.offset t.stop.offset).isSome
  values : (scan source).tokens.Pairwise fun a b =>
    (Text.slice? source.toList a.start.offset b.stop.offset).isSome

section Violations

variable {index : LineIndex}

/-- The character at a column of a line, as violations are about. -/
def columnSpan (index : LineIndex) (number : Nat) (column : UInt32) : Span :=
  ⟨index.positionAt number (column.toNat + 1), index.positionAt number (column.toNat + 2)⟩

/-- A broken rule as a finding, with columns of any size. -/
def placeViolation (index : LineIndex) (v : Violation) : Diagnostic :=
  ⟨.standardsViolation, v.severity, v.message, columnSpan index v.line v.column, .standards,
    some ("standards." ++ v.rule)⟩

theorem ofViolation_eq (index : LineIndex) (v : Violation) : ofViolation index v =
    if v.column.toNat + 2 < 2 ^ 32 then some (placeViolation index v) else none := by
  unfold ofViolation
  split
  · next fits =>
      have fits : v.column.toNat + 2 < UInt32.size := fits
      rw [word?_of_lt (Nat.lt_of_succ_lt fits), word?_of_lt fits]
      rfl
  · next large =>
      have large : UInt32.size ≤ v.column.toNat + 2 := Nat.le_of_not_lt large
      rw [word?_of_le large]
      cases word? UInt32.size (v.column.toNat + 1) <;> rfl

theorem mapM_ofViolation {violations : List Violation}
    (fits : ∀ v ∈ violations, v.column.toNat + 2 < 2 ^ 32) :
    violations.mapM (ofViolation index) = some (violations.map (placeViolation index)) := by
  induction violations with
  | nil => rfl
  | cons v rest ih =>
      obtain ⟨here, later⟩ := List.forall_mem_cons.mp fits
      rw [List.mapM_cons, ofViolation_eq, if_pos here, ih later]
      rfl

/-- Where all violations have places, these are the places of their columns. -/
theorem mapM_ofViolation_some {violations : List Violation} {found : List Diagnostic}
    (h : violations.mapM (ofViolation index) = some found) :
    found = violations.map (placeViolation index) := by
  induction violations generalizing found with
  | nil => exact (Option.some.inj h).symm
  | cons v rest ih =>
      rw [List.mapM_cons] at h
      obtain ⟨first, here, h⟩ := Option.bind_eq_some_iff.mp h
      obtain ⟨others, later, h⟩ := Option.bind_eq_some_iff.mp h
      rw [ofViolation_eq] at here
      obtain ⟨_, same⟩ := Option.ite_none_right_eq_some.mp here
      cases same
      cases h
      rw [ih later, List.map_cons]

/-- The rules of the standards say of short lines only what has a place. -/
theorem violation_fits {source : String} {v : Violation} (member : v ∈ Standards.validate source)
    (short : ∀ line ∈ Text.lines source.toList, line.length < 2 ^ 32) :
    v.column.toNat + 2 < 2 ^ 32 := by
  obtain ⟨i, line, here, -, inside⟩ := violation_inside member
  have small := short line (List.mem_of_getElem? here)
  exact Nat.lt_of_le_of_lt (inside small) small

end Violations

theorem lines_short {source : String} (small : source.utf8ByteSize < 2 ^ 32) :
    ∀ line ∈ Text.lines source.toList, line.length < 2 ^ 32 := by
  intro line member
  obtain ⟨i, place⟩ := List.getElem?_of_mem member
  obtain ⟨front, back, here⟩ := Text.lineAt_of_lines place
  have length := Text.length_le_byteLength line
  have whole := Text.byteLength_toList source
  rw [here.split, Text.byteLength_append, Text.byteLength_append] at whole
  omega

section

variable {source : String} (small : source.utf8ByteSize < 2 ^ 32)

include small in
theorem lookUps : LookUps source := by
  obtain ⟨each, pairs⟩ := scan_tokens_in source
  refine ⟨?_, LineIndex.lineStart_boundary source.toList, ?_, ?_, ?_, ?_,
    fun t member => (each t member).slice, pairs.imp fun range => range.slice⟩
  · rintro ⟨code, message, n⟩ member
    obtain ⟨front, c, back, split, place, size, _⟩ :=
      BracketScan.offsets_scanned (BracketScan.findings_offset member)
    have range := Span.in_part split
    have start := range.start.boundary
    have stop := range.stop.boundary
    rw [Position.after_offset, Position.start_offset, Nat.zero_add] at start stop
    rw [Text.byteLength_append, size] at stop
    exact place ▸ ⟨start, stop⟩
  · intro i line place assigns
    obtain ⟨front, back, line⟩ := Text.lineAt_of_lines place
    obtain ⟨first, found, _⟩ := legacyAssignment_parts assigns
    exact looked_first line found
  · intro i line name place declared
    obtain ⟨front, back, line⟩ := Text.lineAt_of_lines place
    obtain ⟨first, found⟩ := declaredFunction_part declared
    exact looked_first line found
  · intro i line trigger place stripped shown
    obtain ⟨front, back, line⟩ := Text.lineAt_of_lines place
    obtain ⟨gap, after, split, found⟩ := emptyHotkey_part stripped shown
    rw [bytesBefore, found, Option.getD_some]
    exact looked_part line split
  · intro v member
    obtain ⟨i, line, here, number, inside⟩ := violation_inside member
    have short := lines_short small
    refine ⟨line, ?_, ?_, violation_fits member short,
      inside (short line (List.mem_of_getElem? here))⟩
    · rw [number, Nat.add_sub_cancel]
      exact here
    · rw [number]
      exact Nat.le_add_left 1 i

include small in
theorem placeViolation_range {v : Violation} (member : v ∈ Standards.validate source) :
    (placeViolation (.ofSource source) v).range.In source.toList := by
  obtain ⟨i, line, here, number, inside⟩ := violation_inside member
  have within := inside (lines_short small line (List.mem_of_getElem? here))
  obtain ⟨front, back, place⟩ := Text.lineAt_of_lines here
  rw [placeViolation, columnSpan]
  dsimp only
  rw [number]
  exact place.columns (Nat.le_succ _) (by omega)

end

/-- What the run on a script gives, where the rules are wanted and have places, or are not
wanted. -/
theorem diagnose_eq_some {source : String} {options : DiagnoseOptions} {found : List Diagnostic}
    (h : diagnose options source = some found) :
    found = findings options source (if options.enableStandards
      then (Standards.validate source).map (placeViolation (.ofSource source)) else []) := by
  obtain ⟨violations, placed, rfl⟩ := Option.map_eq_some_iff.mp h
  split at placed
  · next standards => rw [mapM_ofViolation_some placed, if_pos standards]
  · next standards =>
      cases placed
      rw [if_neg standards]

/-- A script without lines that are too long is diagnosed to its end. -/
theorem diagnose_of_short {source : String}
    (short : ∀ line ∈ Text.lines source.toList, line.length < 2 ^ 32) (options : DiagnoseOptions) :
    ∃ found, diagnose options source = some found := by
  have placed : (Standards.validate source).mapM (ofViolation (.ofSource source)) = some _ :=
    mapM_ofViolation fun v member => violation_fits member short
  unfold diagnose diagnoseWith
  rw [placed]
  split <;> exact ⟨_, rfl⟩

end LineChecks

open LineChecks

/-- All findings of the line checks and of the standards are about ranges in the script. -/
theorem diagnose_ranges {source : String} (small : source.utf8ByteSize < 2 ^ 32)
    {options : DiagnoseOptions} {found : List Diagnostic}
    (returns : diagnose options source = some found) :
    ∀ d ∈ found, d.range.In source.toList := by
  intro d member
  rw [diagnose_eq_some returns] at member
  have found : d ∈ LineChecks.brackets (.ofText source.toList) ++
      missingDirective source.toList (Text.lines source.toList) ++
      linesFrom (.ofText source.toList) 1 (Text.lines source.toList) ++
      (if options.enableStandards
        then (Standards.validate source).map (placeViolation (.ofText source.toList)) else []) := by
    unfold findings at member
    dsimp only at member
    split at member
    · exact List.mem_of_mem_filter member
    · exact member
  simp only [List.mem_append] at found
  rcases found with ((bracket | directive) | line) | violation
  · exact brackets_ranges _ d bracket
  · unfold missingDirective at directive
    split at directive
    · rw [List.mem_singleton.mp directive]
      exact Span.in_point (Position.in_start _)
    · cases directive
  · obtain ⟨i, line, here, found⟩ := linesFrom_lines line
    obtain ⟨front, back, place⟩ := Text.lineAt_of_lines here
    exact lineFindings_ranges (Nat.add_comm i 1 ▸ place) d found
  · split at violation
    · obtain ⟨v, among, rfl⟩ := List.mem_map.mp violation
      exact placeViolation_range small among
    · cases violation

/-- Every finding of the linter and of the line checks points at real source. The line checks return
under any options and the linter under any settings with a width below 2^32; the range of each
finding, under whatever settings, begins and ends between characters of the script, in order and
within it, with the lines and columns of these offsets. And nothing is looked up or cut out on the
way that is not between characters. -/
theorem findings_real (source : String) (small : source.utf8ByteSize < 2 ^ 32) :
    (∀ settings : LintSettings, settings.indentWidth.toNat < 2 ^ 32 →
      ∃ found, lint settings source = some found) ∧
    (∀ settings found, lint settings source = some found → ∀ d ∈ found, d.range.Real source) ∧
    (∀ options, ∃ found, diagnose options source = some found ∧ ∀ d ∈ found, d.range.Real source) ∧
    LookUps source := by
  refine ⟨fun settings width => ?_, fun settings found returns => ?_, fun options => ?_,
    lookUps small⟩
  · refine ⟨_, Lint.lint_of_fits (Lint.fits_of_small ?_)⟩
    have bound := Nat.mul_lt_mul'' (show max settings.indentWidth.toNat 1 < 2 ^ 32 by omega) small
    rwa [← Nat.pow_add] at bound
  · obtain rfl := Lint.lint_eq_some returns
    exact fun d member => (listing_ranges settings source d member).real
  · obtain ⟨found, returns⟩ := diagnose_of_short (lines_short small) options
    exact ⟨found, returns, fun d member => (diagnose_ranges small returns d member).real⟩

/-- A script of many alphabets that does not lex, with findings of both kinds behind characters of
several bytes. -/
theorem findings_real_sample :
    (∃ found, lint {} "é := (\nß = \"x" = some found ∧ found.length = 4 ∧
      ∀ d ∈ found, d.range.Real "é := (\nß = \"x") ∧
    ∃ found, diagnose {} "é := (\nß = \"x" = some found ∧ found.length = 4 ∧
      ∀ d ∈ found, d.range.Real "é := (\nß = \"x" := by
  obtain ⟨linted, real, checked, _⟩ := findings_real "é := (\nß = \"x" (by decide +kernel)
  obtain ⟨found, returns⟩ := linted {} (by decide)
  obtain ⟨others, returns', real'⟩ := checked {}
  have four : (lint {} "é := (\nß = \"x").map List.length = some 4 := by decide +kernel
  have four' : (diagnose {} "é := (\nß = \"x").map List.length = some 4 := by decide +kernel
  rw [returns] at four
  rw [returns'] at four'
  exact ⟨⟨found, returns, Option.some.inj four, real _ _ returns⟩, others, returns',
    Option.some.inj four', real'⟩

end ScriptLens
