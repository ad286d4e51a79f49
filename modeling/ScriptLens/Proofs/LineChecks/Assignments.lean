import ScriptLens.Proofs.LineChecks.Places

/-!
Assignments by an equals sign are found twice: by the line checks, which look the first sign up by
its bytes, and by the standards, which count the characters in front of it. Both find them on the
same lines, although they pass over other ones, and both find the same place there, as long as the
columns of the line fit their words.
-/

namespace ScriptLens

namespace LineChecks

open Text (LineAt)
open Standards (isLegacyAssignment lineViolations assignmentOperator rules Rule)

/-- The places of assignments by an equals sign, as the line checks tell them. -/
def ownAssignments (found : List Diagnostic) : List Span :=
  (found.filter (·.code = .legacyAssignment)).map (·.range)

/-- The places of assignments by an equals sign, as the standards tell them. -/
def ruleAssignments (found : List Diagnostic) : List Span :=
  (found.filter (·.rule = some "standards.use_assignment_operator")).map (·.range)

theorem ownAssignments_append (found more : List Diagnostic) :
    ownAssignments (found ++ more) = ownAssignments found ++ ownAssignments more := by
  rw [ownAssignments, List.filter_append, List.map_append]
  rfl

theorem ruleAssignments_append (found more : List Diagnostic) :
    ruleAssignments (found ++ more) = ruleAssignments found ++ ruleAssignments more := by
  rw [ruleAssignments, List.filter_append, List.map_append]
  rfl

/-- The findings have one of these codes, and none of them is about a rule. -/
def Checked (codes : List Code) (found : List Diagnostic) : Prop :=
  ∀ d ∈ found, d.code ∈ codes ∧ d.rule = none

section Checked

variable {codes more : List Code} {found others : List Diagnostic}

theorem checked_nil : Checked codes [] := List.forall_mem_nil _

theorem Checked.append (h : Checked codes found) (h' : Checked codes others) :
    Checked codes (found ++ others) :=
  List.forall_mem_append.mpr ⟨h, h'⟩

theorem Checked.mono (h : Checked codes found) (inside : codes ⊆ more) : Checked more found :=
    fun d member =>
  ⟨inside (h d member).1, (h d member).2⟩

theorem Checked.no_own (h : Checked codes found) (other : Code.legacyAssignment ∉ codes) :
    ownAssignments found = [] := by
  refine List.map_eq_nil_iff.mpr (List.filter_eq_nil_iff.mpr fun d member same => other ?_)
  exact of_decide_eq_true same ▸ (h d member).1

theorem Checked.no_rule (h : Checked codes found) : ruleAssignments found = [] := by
  refine List.map_eq_nil_iff.mpr (List.filter_eq_nil_iff.mpr fun d member same => ?_)
  rw [(h d member).2] at same
  cases of_decide_eq_true same

theorem BracketScan.found_step (s : BracketScan) (c : Char) {f : Code × String × Nat}
    (member : f ∈ (s.step c).found) :
    f ∈ s.found ∨ f.1 ∈ [Code.unmatchedBrace, .unmatchedParen] := by
  have took := step_spec s c
  generalize s.step c = t at took member
  cases took with
  | reading | openBrace | openParen | closeBrace | closeParen => exact .inl member
  | strayBrace | strayParen =>
      rcases List.mem_cons.mp member with rfl | older
      · exact .inr (by simp)
      · exact .inl older

theorem BracketScan.found_scanned {text : List Char} {f : Code × String × Nat}
    (member : f ∈ (scanned text).found) : f.1 ∈ [Code.unmatchedBrace, .unmatchedParen] := by
  induction text using List.reverseRecOn with
  | nil => cases member
  | append_singleton text c ih =>
      rw [scanned_snoc] at member
      exact (found_step _ c member).elim ih id

theorem brackets_checked (index : LineIndex) : Checked [.unmatchedBrace, .unmatchedParen,
      .unclosedBrace, .unclosedParen] (brackets index) := by
  intro d member
  obtain ⟨⟨code, message, n⟩, found, rfl⟩ := List.mem_map.mp (Diagnostic.mem_inOrder.mp member)
  refine ⟨?_, rfl⟩
  simp only [BracketScan.findings, List.mem_append, List.mem_map, List.mem_reverse] at found
  rcases found with (found | ⟨n, _, same⟩) | ⟨n, _, same⟩
  · have inner := BracketScan.found_scanned found
    simp only [List.mem_cons] at inner ⊢
    tauto
  · cases same
    simp [finding]
  · cases same
    simp [finding]

theorem missingDirective_checked (source : List Char) (lines : List (List Char)) :
    Checked [.missingDirective] (missingDirective source lines) := by
  unfold missingDirective
  split
  · exact List.forall_mem_singleton.mpr ⟨List.mem_cons_self, rfl⟩
  · exact checked_nil

variable (index : LineIndex) (number : Nat) (line : List Char) (next : Option (List Char))

theorem legacyAssignment_checked :
    Checked [.legacyAssignment] (legacyAssignment index number line) := by
  unfold legacyAssignment
  split
  · exact List.forall_mem_singleton.mpr ⟨List.mem_cons_self, rfl⟩
  · exact checked_nil

theorem functionNaming_checked :
    Checked [.functionNaming] (functionNaming index number line next) := by
  unfold functionNaming
  split
  · split
    · exact List.forall_mem_singleton.mpr ⟨List.mem_cons_self, rfl⟩
    · exact checked_nil
  · exact checked_nil

theorem emptyHotkey_checked : Checked [.emptyHotkey] (emptyHotkey index number line next) := by
  unfold emptyHotkey
  dsimp only
  split
  · split
    · exact List.forall_mem_singleton.mpr ⟨List.mem_cons_self, rfl⟩
    · exact checked_nil
  · exact checked_nil

theorem lineFindings_checked : Checked [.legacyAssignment, .functionNaming, .emptyHotkey]
    (lineFindings index number line next) := by
  unfold lineFindings
  split
  · exact checked_nil
  split
  · exact checked_nil
  refine Checked.append (Checked.append ?_ ?_) ?_
  · exact (legacyAssignment_checked index number line).mono (by simp)
  · exact (functionNaming_checked index number line next).mono (by simp)
  · exact (emptyHotkey_checked index number line next).mono (by simp)

theorem linesFrom_checked (lines : List (List Char)) :
    Checked [.legacyAssignment, .functionNaming, .emptyHotkey] (linesFrom index number lines) := by
  induction lines generalizing number with
  | nil => exact checked_nil
  | cons line rest ih =>
      exact (lineFindings_checked index number line rest.head?).append (ih (number + 1))

end Checked

section Line

variable {line : List Char}

/-- A text starts with its first character that is no white space, that one or one in front of
it. -/
theorem trimStart_head {c : Char} (solid : Text.isSpace c = false) (lead rest : List Char) :
    ∃ d behind, Text.trimStart (lead ++ c :: rest) = d :: behind ∧ Text.isSpace d = false ∧
    (d ∈ lead ∨ d = c) := by
  induction lead with
  | nil => exact ⟨c, rest, List.dropWhile_cons_of_neg (by simp [solid]), solid, .inr rfl⟩
  | cons e lead ih =>
      by_cases blank : Text.isSpace e = true
      · obtain ⟨d, behind, start, shown, place⟩ := ih
        refine ⟨d, behind, ?_, shown, place.imp_left (List.mem_cons_of_mem e)⟩
        rw [List.cons_append, Text.trimStart, List.dropWhile_cons_of_pos blank]
        exact start
      · exact ⟨e, lead ++ c :: rest, List.dropWhile_cons_of_neg blank, eq_false_of_ne_true blank,
          .inl List.mem_cons_self⟩

/-- A line that assigns is neither empty nor a comment, however the white space around it is cut
off. -/
theorem legacyAssignment_shown (h : isLegacyAssignment line = true) :
    ∃ c rest rest', c ≠ ';' ∧ Text.trimStart line = c :: rest ∧ Text.trim line = c :: rest' := by
  obtain ⟨_, lead, rest, -, -, -, split, -, inside⟩ := legacyAssignment_lead h
  obtain ⟨c, behind, start, solid, place⟩ := trimStart_head (c := '=') rfl lead rest
  rw [← List.singleton_append, ← split] at start
  have comment : c ≠ ';' := by
    rintro rfl
    rcases place with ahead | same
    · rcases inside ';' ahead with space | word
      · cases space
      · cases word
    · cases same
  obtain ⟨after, whole, blank⟩ := Text.trimStart_split line
  rw [start] at whole
  cases trimmed : Text.trim line with
  | nil =>
      rw [trimmed, List.nil_append] at whole
      rw [blank c (whole ▸ List.mem_cons_self)] at solid
      cases solid
  | cons d rest' =>
      rw [trimmed] at whole
      obtain ⟨rfl, _⟩ := List.cons.inj whole
      exact ⟨c, behind, rest', comment, start, rfl⟩

/-- On a line the line checks tell of an assignment where the line is one. -/
theorem ownAssignments_line (index : LineIndex) (number : Nat) (line : List Char)
    (next : Option (List Char)) : ownAssignments (lineFindings index number line next) =
    (legacyAssignment index number line).map (·.range) := by
  have naming := (functionNaming_checked index number line next).no_own (by decide)
  have hotkey := (emptyHotkey_checked index number line next).no_own (by decide)
  have whole : ownAssignments (legacyAssignment index number line ++
      functionNaming index number line next ++ emptyHotkey index number line next) =
      ownAssignments (legacyAssignment index number line) := by
    rw [ownAssignments_append, ownAssignments_append, naming, hotkey, List.append_nil,
      List.append_nil]
  by_cases assigns : isLegacyAssignment line = true
  · obtain ⟨c, _, rest, comment, _, trimmed⟩ := legacyAssignment_shown assigns
    rw [lineFindings, trimmed]
    dsimp only
    rw [if_neg comment, whole, legacyAssignment, if_pos assigns]
    rfl
  · have none : legacyAssignment index number line = [] := if_neg assigns
    rw [none] at whole ⊢
    unfold lineFindings
    split
    · rfl
    split
    · rfl
    · rw [none, whole]
      rfl

/-- The violations of rules with one name are what these rules say. -/
theorem ranges_violations (index : LineIndex) (number : Nat) (line : List Char) (name : String)
    (rules : List Rule) :
    (((rules.filterMap fun rule => rule.violation? number line).map (placeViolation index)).filter
        (·.rule = some ("standards." ++ name))).map (·.range) =
      ((rules.filter (·.name = name)).map (·.check)).filterMap fun check =>
        (check line).map fun hit => columnSpan index number hit.column.toUInt32 := by
  induction rules with
  | nil => rfl
  | cons rule rules ih =>
      have same : "standards." ++ rule.name = "standards." ++ name ↔ rule.name = name :=
        String.append_right_inj _
      rw [List.filterMap_cons, Rule.violation?, List.filter_cons]
      cases check : rule.check line with
      | none =>
          rw [Option.map_none]
          dsimp only
          rw [ih]
          split
          · rw [List.map_cons, List.filterMap_cons, check, Option.map_none]
          · rfl
      | some hit =>
          rw [Option.map_some]
          dsimp only
          rw [List.map_cons, List.filter_cons, placeViolation]
          by_cases named : rule.name = name
          · rw [if_pos (by simp [named]), if_pos (by simp [named]), List.map_cons, ih,
              List.map_cons, List.filterMap_cons, check, Option.map_some]
          · rw [if_neg (by simp [same, named]), if_neg (by simp [named]), ih]

/-- On a line the standards tell of an assignment where their rule hits it. -/
theorem ruleAssignments_line (index : LineIndex) (number : Nat) (line : List Char) :
    ruleAssignments ((lineViolations number line).map (placeViolation index)) =
      ((assignmentOperator line).map fun hit =>
        columnSpan index number hit.column.toUInt32).toList := by
  have only :
    (rules.filter (·.name = "use_assignment_operator")).map (·.check) = [assignmentOperator] := rfl
  have told := ranges_violations index number line "use_assignment_operator" rules
  have name :
    "standards." ++ "use_assignment_operator" = "standards.use_assignment_operator" := by decide
  rw [only, List.filterMap_cons, List.filterMap_nil, name] at told
  unfold lineViolations
  split
  · next comment =>
      have none : assignmentOperator line = none := by
        refine if_neg fun assigns => ?_
        obtain ⟨c, _, _, code, start, _⟩ := legacyAssignment_shown assigns
        rw [start] at comment
        exact code (Option.some.inj comment)
      rw [none]
      rfl
  · rw [ruleAssignments, told]
    cases assignmentOperator line <;> rfl

variable {text front back : List Char} {number : Nat}

/-- Where a line assigns, the byte in front of the sign and its column are looked up in the same
text. -/
theorem assignment_places (h : LineAt text number front line back)
    (assigns : isLegacyAssignment line = true) :
    ∃ lead rest, line = lead ++ (['='] ++ rest) ∧ 1 ≤ rest.length ∧
      (assignmentOperator line).map (·.column) = some lead.length ∧
      (legacyAssignment (.ofText text) number line).map (·.range) =
        [⟨Position.start.after (front ++ lead),
          Position.start.after (front ++ lead ++ ['='])⟩] := by
  obtain ⟨_, lead, rest, -, -, first, split, more, -⟩ := legacyAssignment_lead assigns
  have column : Standards.columnOf? "=" line = some lead.length :=
    congrArg (Option.map List.length) first
  have bytes :
    bytesBefore ['='] line = Text.byteLength lead := by rw [bytesBefore, first, Option.getD_some]
  refine ⟨lead, rest, split, more, ?_, ?_⟩
  · rw [assignmentOperator, if_pos assigns, column]
    rfl
  · rw [legacyAssignment, if_pos assigns, bytes]
    exact congrArg (fun span => [span]) (lineSpan_part h split)

/-- The two ways to the first equals sign of a line lead to the same place. -/
theorem places_line (h : LineAt text number front line back) (small : line.length < 2 ^ 32) :
    (legacyAssignment (.ofText text) number line).map (·.range) =
      ((assignmentOperator line).map fun hit =>
        columnSpan (.ofText text) number hit.column.toUInt32).toList := by
  by_cases assigns : isLegacyAssignment line = true
  · obtain ⟨lead, rest, split, more, found, looked⟩ := assignment_places h assigns
    obtain ⟨hit, hits, column⟩ := Option.map_eq_some_iff.mp found
    have length : line.length = lead.length + 1 + rest.length := by
      rw [split, List.length_append, List.length_append, List.length_singleton]
      omega
    have word : lead.length.toUInt32.toNat = lead.length :=
      toNat_toUInt32 (show lead.length < 2 ^ 32 by omega)
    have before : line.take lead.length = lead := by rw [split, List.take_left]
    have behind : line.take (lead.length + 1) = lead ++ ['='] := by
      rw [split, ← List.append_assoc]
      exact List.take_left' (by simp)
    have counted : columnSpan (.ofText text) number lead.length.toUInt32 =
        ⟨Position.start.after (front ++ lead), Position.start.after (front ++ lead ++ ['='])⟩ := by
      rw [columnSpan, word, h.positionAt (by omega), h.positionAt (by omega), before, behind,
        List.append_assoc]
    rw [looked, hits, Option.map_some, column, counted]
    rfl
  · rw [legacyAssignment, assignmentOperator, if_neg assigns, if_neg assigns]
    rfl

/-- However long the line is, both ways stay on it. -/
theorem numbers_line (h : LineAt text number front line back) :
    ((legacyAssignment (.ofText text) number line).map (·.range)).map (·.start.line) =
      ((assignmentOperator line).map fun hit =>
        columnSpan (.ofText text) number hit.column.toUInt32).toList.map (·.start.line) := by
  by_cases assigns : isLegacyAssignment line = true
  · obtain ⟨lead, rest, split, -, found, looked⟩ := assignment_places h assigns
    obtain ⟨hit, hits, -⟩ := Option.map_eq_some_iff.mp found
    have free : '\n' ∉ lead := fun member => h.free (split ▸ List.mem_append_left _ member)
    have number' : (Position.start.after (front ++ lead)).line = max number 1 := by
      rw [Position.after_line, List.count_append, List.count_eq_zero.mpr free, h.number]
      exact (Nat.add_comm 1 _).trans (Nat.max_eq_left (Nat.le_add_left 1 _)).symm
    rw [looked, hits]
    exact congrArg (fun n => [n]) number'
  · rw [legacyAssignment, assignmentOperator, if_neg assigns, if_neg assigns]
    rfl

/-- What agrees on each line agrees on all of them. -/
theorem assignments_lines {α : Type} (part : Span → α) {lines : List (List Char)}
    (agree : ∀ i line, lines[i]? = some line →
      ((legacyAssignment (.ofText text) (number + i) line).map (·.range)).map part =
        ((assignmentOperator line).map fun hit =>
          columnSpan (.ofText text) (number + i) hit.column.toUInt32).toList.map part) :
    (ownAssignments (linesFrom (.ofText text) number lines)).map part =
      (ruleAssignments (((lines.zipIdx number).flatMap fun (line, n) => lineViolations n line).map
        (placeViolation (.ofText text)))).map part := by
  induction lines generalizing number with
  | nil => rfl
  | cons line rest ih =>
      have here := agree 0 line rfl
      have later := @ih (number + 1) fun i line place => by
        have below := agree (i + 1) line place
        rwa [Nat.add_comm i 1, ← Nat.add_assoc] at below
      rw [Nat.add_zero] at here
      rw [linesFrom, ownAssignments_append, ownAssignments_line, List.map_append, here, later,
        List.zipIdx_cons, List.flatMap_cons, List.map_append, ruleAssignments_append,
        ruleAssignments_line, List.map_append]

end Line

section Blanks

open Standards

/-- An assignment by an equals sign behind so many blanks. -/
def indented (n : Nat) : List Char := List.replicate n ' ' ++ ['x', ' ', '=', ' ', '1']

variable (n : Nat)

/-- A part that does not begin with a blank is not looked for among blanks. -/
theorem before?_indented {d : Char} (solid : d ≠ ' ') (part : List Char) :
    Text.before? (d :: part) (indented n) =
      (Text.before? (d :: part) ['x', ' ', '=', ' ', '1']).map (List.replicate n ' ' ++ ·) := by
  unfold indented
  induction n with
  | zero => simp
  | succ n ih =>
      have other : ¬(d :: part).isPrefixOf
          (' ' :: (List.replicate n ' ' ++ ['x', ' ', '=', ' ', '1'])) = true := by
        rw [List.isPrefixOf_iff_prefix, List.cons_prefix_cons]
        exact fun same => solid same.1
      rw [List.replicate_succ, List.cons_append, Text.before?, if_neg other, ih, Option.map_map]
      rfl

theorem before?_missing {d : Char} {part : List Char} (solid : d ≠ ' ')
    (none : Text.before? (d :: part) ['x', ' ', '=', ' ', '1'] = none) :
    Text.before? (d :: part) (indented n) = .none := by
  rw [before?_indented n solid, none]
  rfl

theorem before?_sign :
    Text.before? ['='] (indented n) = some (List.replicate n ' ' ++ ['x', ' ']) := by
  rw [before?_indented n (by decide)]
  rfl

theorem columnOf?_sign : columnOf? "=" (indented n) = some (n + 2) := by
  have length : (List.replicate n ' ' ++ ['x', ' ']).length = n + 2 := by simp
  rw [← length]
  exact congrArg (Option.map List.length) (before?_sign n)

theorem indented_assigns : isLegacyAssignment (indented n) = true := by
  have lead : ∀ c ∈ List.replicate n ' ', Text.isSpace c = true := fun c blank =>
    (List.mem_replicate.mp blank).2 ▸ rfl
  have blank : ∀ c ∈ [' '], Text.isSpace c = true := List.forall_mem_singleton.mpr rfl
  have word : ['x'] ≠ [] ∧ ∀ c ∈ ['x'], Text.isWord c = true :=
    ⟨List.cons_ne_nil _ _, List.forall_mem_singleton.mpr rfl⟩
  have found := Text.Pattern.matchHere_complete equalsValue none (indented n)
    ⟨[List.replicate n ' ', ['x'], [' '], ['='], [' '], ['1']], []⟩ <|
    .item (.many Text.isSpace) lead <|
    .item (.some Text.isWord) word <| .item (.many Text.isSpace) blank <|
    .item (.one (· = '=')) ⟨'=', rfl, rfl⟩ <| .item (.many Text.isSpace) blank <|
    .item (.one (· != '=')) ⟨'1', rfl, rfl⟩ .nil
  rw [isLegacyAssignment, Text.Pattern.match?, found]
  simp only [List.all_cons, List.all_nil, Text.occursIn, Text.contains, String.reduceToList]
  rw [before?_missing n (by decide) (by decide), before?_missing n (by decide) (by decide),
    before?_missing n (by decide) (by decide), before?_missing n (by decide) (by decide),
    before?_missing n (by decide) (by decide)]
  rfl

theorem mem_indented {c : Char} (present : c ∈ indented n) : c ∈ [' ', 'x', '=', '1'] := by
  rcases List.mem_append.mp present with blank | rest
  · exact (List.mem_replicate.mp blank).2 ▸ List.mem_cons_self
  · revert rest
    simp only [List.mem_cons]
    tauto

/-- Only one rule hits, at the sign: the others look for characters that are not there. -/
theorem indented_hit {rule : Rule} (member : rule ∈ rules) {hit : Hit}
    (h : rule.check (indented n) = some hit) : hit.column = n + 2 := by
  have missing {d : Char} {part : List Char} {column : Nat} (solid : d ≠ ' ')
      (none : Text.before? (d :: part) ['x', ' ', '=', ' ', '1'] = none) :
      (Text.before? (d :: part) (indented n)).map List.length ≠ some column := by
    rw [before?_missing n solid none]
    exact Option.some_ne_none column ∘ Eq.symm
  simp only [rules, List.mem_cons, List.not_mem_nil, or_false] at member
  rcases member with rfl | rfl | rfl | rfl | rfl | rfl | rfl
  · obtain ⟨_, h⟩ := Option.ite_none_left_eq_some.mp h
    obtain ⟨⟨before, m⟩, found, rfl⟩ := Option.map_eq_some_iff.mp h
    obtain ⟨rest, split, spells⟩ := Text.Pattern.searchFrom_sound found
    rcases spells with _ | @⟨_, _, _, _, _, _, ⟨c, rfl, same⟩, _⟩
    have brace : c = '{' := of_decide_eq_true same
    have present :=
      mem_indented n (split ▸ List.mem_append_right _ List.mem_cons_self : c ∈ indented n)
    exact absurd (brace ▸ present) (by decide)
  · obtain ⟨⟨before, m⟩, found, rfl⟩ := Option.map_eq_some_iff.mp h
    obtain ⟨rest, split, spells⟩ := Text.Pattern.searchFrom_sound found
    rcases spells with _ | @⟨_, _, _, _, _, _, ⟨rfl, _⟩, spells⟩
    rcases spells with _ | @⟨_, _, _, _, _, _, ⟨c, rfl, same⟩, _⟩
    have letter : c = 'n' := of_decide_eq_true same
    have present :=
      mem_indented n (split ▸ List.mem_append_right _ List.mem_cons_self : c ∈ indented n)
    exact absurd (letter ▸ present) (by decide)
  · obtain ⟨assigns, h⟩ := Option.ite_none_right_eq_some.mp h
    obtain ⟨column, found, rfl⟩ := Option.map_eq_some_iff.mp h
    exact Option.some.inj (found.symm.trans (columnOf?_sign n))
  · obtain ⟨column, found, rfl⟩ := Option.map_eq_some_iff.mp h
    rcases Option.or_eq_some_iff.mp found with double | ⟨_, single⟩
    · exact absurd double (missing (by decide) (by decide))
    · exact absurd single (missing (by decide) (by decide))
  · obtain ⟨_, h⟩ := Option.ite_none_right_eq_some.mp h
    obtain ⟨column, found, rfl⟩ := Option.map_eq_some_iff.mp h
    exact absurd found (missing (by decide) (by decide))
  · obtain ⟨_, h⟩ := Option.ite_none_left_eq_some.mp h
    obtain ⟨name, _, h⟩ := Option.bind_eq_some_iff.mp h
    obtain ⟨column, found, same⟩ := Option.bind_eq_some_iff.mp h
    exact absurd found (missing (by decide) (by decide))
  · obtain ⟨_, h⟩ := Option.ite_none_right_eq_some.mp h
    obtain ⟨column, found, rfl⟩ := Option.map_eq_some_iff.mp h
    exact absurd found (missing (by decide) (by decide))

theorem lines_indented : Text.lines (indented n) = [indented n] := by
  have free : '\n' ∉ indented n := fun feed => absurd (mem_indented n feed) (by decide)
  have last : (indented n).getLast? ≠ some '\r' := fun ends =>
    absurd (mem_indented n (List.mem_of_getLast? ends)) (by decide)
  rw [Text.lines, Text.splitLines_line free, List.map_singleton, Text.stripReturn, if_neg last]

theorem lineAt_indented : LineAt (indented n) 1 [] (indented n) [] where
  split := by rw [List.nil_append, List.append_nil]
  whole := wholeLines_nil
  number := rfl
  free feed := absurd (mem_indented n feed) (by decide)

theorem byteLength_blanks (k : Nat) : Text.byteLength (List.replicate k ' ') = k := by
  rw [Text.byteLength_replicate]
  exact Nat.mul_one k

end Blanks

theorem validate_eq (source : String) : Standards.validate source =
    ((Text.lines source.toList).zipIdx 1).flatMap fun (line, number) =>
    lineViolations number line := by
  rw [Standards.validate, List.zipIdx_succ, List.flatMap_map]

/-- With the standards and without a filter, the assignments come from the lines alone. -/
theorem assignments_diagnose {source : String} {options : DiagnoseOptions}
    (standards : options.enableStandards = true) (all : options.severityFilter = none)
    {found : List Diagnostic} (returns : diagnose options source = some found) :
    ownAssignments found =
      ownAssignments (linesFrom (.ofText source.toList) 1 (Text.lines source.toList)) ∧
    ruleAssignments found = ruleAssignments
      ((Standards.validate source).map (placeViolation (.ofText source.toList))) := by
  have whole : found = brackets (.ofText source.toList) ++
      missingDirective source.toList (Text.lines source.toList) ++
      linesFrom (.ofText source.toList) 1 (Text.lines source.toList) ++
      (Standards.validate source).map (placeViolation (.ofText source.toList)) := by
    rw [diagnose_eq_some returns, if_pos standards, findings, all]
    rfl
  have ahead : Checked
      [.unmatchedBrace, .unmatchedParen, .unclosedBrace, .unclosedParen, .missingDirective]
      (brackets (.ofText source.toList) ++
        missingDirective source.toList (Text.lines source.toList)) :=
    ((brackets_checked _).mono (by simp)).append ((missingDirective_checked _ _).mono (by simp))
  have lines := linesFrom_checked (.ofText source.toList) 1 (Text.lines source.toList)
  have rules : ownAssignments
      ((Standards.validate source).map (placeViolation (.ofText source.toList))) = [] := by
    refine List.map_eq_nil_iff.mpr (List.filter_eq_nil_iff.mpr fun d member same => ?_)
    obtain ⟨v, _, rfl⟩ := List.mem_map.mp member
    cases of_decide_eq_true same
  rw [whole]
  constructor
  · rw [ownAssignments_append, ownAssignments_append, ahead.no_own (by decide), rules,
      List.nil_append, List.append_nil]
  · rw [ruleAssignments_append, ruleAssignments_append, ahead.no_rule, lines.no_rule,
      List.nil_append, List.nil_append]

/-- So many blanks in front of an assignment that the column of its sign is cut to its word once:
the line checks tell of the sign, the rule of a blank. -/
theorem diagnose_indented {n : Nat} (wide : 2 ^ 32 ≤ n) (once : n + 4 < 2 ^ 33) :
    ∃ found, diagnose {} (String.ofList (indented n)) = some found ∧
      (ownAssignments found).map (·.start.offset) = [n + 2] ∧
      (ruleAssignments found).map (·.start.offset) = [n + 2 - 2 ^ 32] := by
  have text : (String.ofList (indented n)).toList = indented n := String.toList_ofList
  have word : (n + 2).toUInt32.toNat = n + 2 - 2 ^ 32 := by
    change (n + 2) % 2 ^ 32 = _
    omega
  have fits : ∀ v ∈ Standards.validate (String.ofList (indented n)),
      v.column.toNat + 2 < 2 ^ 32 := by
    intro v member
    obtain ⟨i, line, rule, hit, here, among, hits, rfl⟩ := mem_validate member
    have only := List.mem_of_getElem? here
    rw [text, lines_indented, List.mem_singleton] at only
    rw [indented_hit n among (only ▸ hits), word]
    omega
  have returns : ∃ found, diagnose {} (String.ofList (indented n)) = some found := by
    unfold diagnose diagnoseWith
    rw [if_pos rfl, mapM_ofViolation fits]
    exact ⟨_, rfl⟩
  obtain ⟨found, returns⟩ := returns
  obtain ⟨own, rule⟩ := assignments_diagnose rfl rfl returns
  have here := lineAt_indented n
  refine ⟨found, returns, ?_, ?_⟩
  · have split : indented n = (List.replicate n ' ' ++ ['x', ' ']) ++ (['='] ++ [' ', '1']) := by
      simp [indented]
    have bytes :
        bytesBefore ['='] (indented n) = Text.byteLength (List.replicate n ' ' ++ ['x', ' ']) := by
      rw [bytesBefore, before?_sign, Option.getD_some]
    have span : lineSpan (.ofText (indented n)) 1 (bytesBefore ['='] (indented n)) 1 = _ :=
      bytes ▸ lineSpan_part here split
    rw [own, text, lines_indented, linesFrom, ownAssignments_append, ownAssignments_line,
      legacyAssignment, if_pos (indented_assigns n), span]
    change [(Position.start.after (List.replicate n ' ' ++ ['x', ' '])).offset] = _
    rw [Position.after_offset, Text.byteLength_append, byteLength_blanks,
      Position.start_offset, Nat.zero_add]
    rfl
  · have hit : (assignmentOperator (indented n)).map
        (fun hit => columnSpan (.ofText (indented n)) 1 hit.column.toUInt32) =
        some (columnSpan (.ofText (indented n)) 1 (n + 2).toUInt32) := by
      rw [assignmentOperator, if_pos (indented_assigns n), columnOf?_sign]
      rfl
    have before : (indented n).take (n + 2 - 2 ^ 32) = List.replicate (n + 2 - 2 ^ 32) ' ' := by
      rw [indented, List.take_append_of_le_length (by rw [List.length_replicate]; omega),
        List.take_replicate, Nat.min_eq_left (by omega)]
    have length : (indented n).length = n + 5 := by simp [indented]
    have place := here.positionAt (show n + 2 - 2 ^ 32 ≤ (indented n).length by omega)
    rw [before, List.nil_append] at place
    rw [rule, validate_eq, text, lines_indented, List.zipIdx_singleton, List.flatMap_singleton,
      ruleAssignments_line, hit]
    change [(columnSpan (.ofText (indented n)) 1 (n + 2).toUInt32).start.offset] = _
    rw [columnSpan, word, place, Position.after_offset, byteLength_blanks,
      Position.start_offset, Nat.zero_add]

end LineChecks

open LineChecks

end ScriptLens
