import ScriptLens.Proofs.LineChecks.Places
import ScriptLens.Proofs.Returns.Scan
import ScriptLens.Proofs.Shift.Lint

/-!
Line endings make no difference to what is found. With a carriage return in front of every line feed
the linter, the line checks and the standards report the same findings in the same order, at the
same lines and columns.
-/

namespace ScriptLens

open Text

/-- A line of a text is the same line of the text with carriage returns. -/
theorem Text.LineAt.withReturns {text front line back : List Char} {number : Nat}
    (h : LineAt text number front line back) :
    LineAt (withReturns text) number (withReturns front) line (withReturns back) := by
  refine ⟨?_, ?_, ?_, h.free⟩
  · rw [h.split, withReturns_append, withReturns_append, withReturns_line h.free]
  · exact wholeLines_withReturns h.whole
  · rw [count_withReturns]
    exact h.number

namespace LineChecks.BracketScan

/-- The state of a scan over moved characters. -/
def shift (σ : Shift) (s : BracketScan) : BracketScan where
  mode := s.mode
  before := s.before
  offset := σ.offset s.offset
  braces := s.braces.map σ.offset
  parens := s.parens.map σ.offset
  found := s.found.map fun (code, message, n) => (code, message, σ.offset n)

variable {σ : Shift}

theorem step_shift (s : BracketScan) {c : Char}
    (next : σ.offset (s.offset + c.utf8Size) = σ.offset s.offset + c.utf8Size) :
    (s.shift σ).step c = (s.step c).shift σ := by
  obtain ⟨mode, before, offset, braces, parens, found⟩ := s
  dsimp only at next
  rw [shift, step.eq_def, step.eq_def]
  dsimp only
  rw [← next]
  by_cases feed : c = '\n'
  · rw [if_pos feed, if_pos feed, shift]
  rw [if_neg feed, if_neg feed]
  by_cases comment : mode = .comment
  · rw [if_pos comment, if_pos comment, shift]
  rw [if_neg comment, if_neg comment]
  by_cases quote : (decide (c = '"') && before != some '`') = true
  · rw [if_pos quote, if_pos quote, shift]
  rw [if_neg quote, if_neg quote]
  by_cases string : mode = .string
  · rw [if_pos string, if_pos string, shift]
  rw [if_neg string, if_neg string]
  by_cases semicolon : (decide (c = ';') && before.all isSpace) = true
  · rw [if_pos semicolon, if_pos semicolon, shift]
  rw [if_neg semicolon, if_neg semicolon]
  split
  · rfl
  · rfl
  · cases braces <;> rfl
  · cases parens <;> rfl
  · rfl

/-- A carriage return and a line feed together. -/
theorem step_return (s : BracketScan) (next : σ.offset (s.offset + 1) = σ.offset s.offset + 2) :
    ((s.shift σ).step '\r').step '\n' = (s.step '\n').shift σ := by
  obtain ⟨mode, before, offset, braces, parens, found⟩ := s
  have size : '\r'.utf8Size = 1 := rfl
  have size' : '\n'.utf8Size = 1 := rfl
  dsimp only at next
  cases mode <;> simp [step, shift, next, size, size', Nat.add_assoc]

/-- The scan finds the same brackets, moved. -/
theorem scanned_withReturns {text front back : List Char} (split : text = front ++ back) :
    scanned (withReturns front) = (scanned front).shift (.ofReturns text) := by
  -- by induction from the end: the last character comes off, a line feed with its carriage return
  induction front using List.reverseRecOn generalizing back with
  | nil =>
      change ({} : BracketScan) = shift _ {}
      rw [shift, Shift.ofReturns_zero]
      rfl
  | append_singleton front c ih =>
      have split' :
        text = front ++ (c :: back) := by rw [split, List.append_assoc, List.singleton_append]
      have here := congrArg Position.offset (Position.after_withReturns split')
      have next := congrArg Position.offset (Position.after_withReturns split)
      simp only [Position.shift, Position.after_offset, Position.start_offset, Nat.zero_add,
        withReturns_append, byteLength_append] at here next
      rw [here] at next
      rw [withReturns_append, scanned_snoc]
      by_cases feed : c = '\n'
      · subst feed
        have two : withReturns ['\n'] = ['\r'] ++ ['\n'] := rfl
        have size : byteLength (withReturns ['\n']) = 2 := rfl
        have size' : byteLength ['\n'] = 1 := rfl
        rw [size, size'] at next
        rw [two, ← List.append_assoc, scanned_snoc, scanned_snoc, ih split']
        exact step_return _ (by rw [scanned_offset]; exact next.symm)
      · rw [withReturns_cons feed, byteLength_cons] at next
        rw [withReturns_cons feed, withReturns_nil, scanned_snoc, ih split']
        exact step_shift _ (by rw [scanned_offset]; simpa using next.symm)

/-- The findings of a scan are about characters that are no line feeds. -/
theorem findings_shift (σ : Shift) (s : BracketScan) :
    (s.shift σ).findings = s.findings.map fun (code, message, n) =>
    (code, message, σ.offset n) := by
  simp only [findings, shift, ← List.map_reverse, List.map_append, List.map_map]
  rfl

end LineChecks.BracketScan

namespace LineChecks

theorem brackets_withReturns (text : List Char) : brackets (.ofText (withReturns text)) =
    (brackets (.ofText text)).map (Diagnostic.shift (.ofReturns text)) := by
  have scan : (LineIndex.ofText (withReturns text)).text.foldl BracketScan.step {} =
      ((LineIndex.ofText text).text.foldl BracketScan.step {}).shift (.ofReturns text) :=
    BracketScan.scanned_withReturns (List.append_nil text).symm
  rw [brackets, brackets, ← Diagnostic.inOrder_shift, scan]
  dsimp only
  rw [BracketScan.findings_shift, List.map_map, List.map_map]
  congr 1
  refine List.map_congr_left fun f member => ?_
  obtain ⟨code, message, n⟩ := f
  obtain ⟨front, c, back, split, place, one, line⟩ :=
    BracketScan.offsets_scanned (BracketScan.findings_offset member)
  replace split : text = front ++ ([c] ++ back) := split
  replace place : n = byteLength front := place
  -- the bracket is looked up in front of itself and behind itself, on both sides
  have split' : withReturns text = withReturns front ++ ([c] ++ withReturns back) := by
    rw [split, withReturns_append, withReturns_append, withReturns_cons line, withReturns_nil]
  have range := LineIndex.positions split
  have range' := LineIndex.positions split'
  have whole : text = (front ++ [c]) ++ back := by rw [List.append_assoc, ← split]
  have start := Position.after_withReturns split
  have stop := Position.after_withReturns whole
  have inside : withReturns [c] = [c] := withReturns_cons line []
  have offset := congrArg Position.offset start
  rw [Position.shift, Position.after_offset, Position.after_offset, Position.start_offset,
    Nat.zero_add, Nat.zero_add] at offset
  rw [withReturns_append, inside] at stop
  rw [one, ← place] at range
  rw [one, offset, ← place, start, stop] at range'
  rw [Function.comp_apply, Function.comp_apply, finding, finding, Diagnostic.shift]
  dsimp only
  rw [range, range', Span.shift]

section Lines

variable {text front line back : List Char} {number : Nat} (h : LineAt text number front line back)

include h in
/-- A part of a line is looked up where it moved. -/
theorem lineSpan_withReturns {before part after : List Char}
    (split : line = before ++ (part ++ after)) :
    lineSpan (.ofText (withReturns text)) number (byteLength before) (byteLength part) =
      (lineSpan (.ofText text) number (byteLength before) (byteLength part)).shift
      (.ofReturns text) := by
  have free := h.free
  rw [split, List.mem_append, List.mem_append, not_or, not_or] at free
  have first : text = (front ++ before) ++ (part ++ (after ++ back)) := by simp [h.split, split]
  have second : text = (front ++ before ++ part) ++ (after ++ back) := by simp [h.split, split]
  have start := Position.after_withReturns first
  have stop := Position.after_withReturns second
  rw [withReturns_append, withReturns_line free.1] at start
  rw [withReturns_append, withReturns_append, withReturns_line free.1,
    withReturns_line free.2.1] at stop
  rw [lineSpan_part h split, lineSpan_part h.withReturns split, start, stop]
  rfl

include h in
theorem lineSpan_first {part first : List Char} (found : before? part line = some first) :
    lineSpan (.ofText (withReturns text)) number (bytesBefore part line) (byteLength part) =
      (lineSpan (.ofText text) number (bytesBefore part line) (byteLength part)).shift
      (.ofReturns text) := by
  obtain ⟨after, split⟩ := before?_split found
  rw [bytesBefore, found, Option.getD_some]
  exact lineSpan_withReturns h split

include h in
theorem legacyAssignment_withReturns : legacyAssignment (.ofText (withReturns text)) number line =
    (legacyAssignment (.ofText text) number line).map (Diagnostic.shift (.ofReturns text)) := by
  unfold legacyAssignment
  split
  · next assigns =>
      obtain ⟨first, found, _⟩ := legacyAssignment_parts assigns
      have span := lineSpan_first h found
      have one : byteLength ['='] = 1 := rfl
      rw [one] at span
      rw [span]
      rfl
  · rfl

include h in
theorem functionNaming_withReturns (next : Option (List Char)) :
    functionNaming (.ofText (withReturns text)) number line next =
      (functionNaming (.ofText text) number line next).map
      (Diagnostic.shift (.ofReturns text)) := by
  unfold functionNaming
  split
  · next name declared =>
      obtain ⟨first, found⟩ := declaredFunction_part declared
      rw [lineSpan_first h found]
      split <;> rfl
  · rfl

include h in
theorem emptyHotkey_withReturns (next : Option (List Char)) :
    emptyHotkey (.ofText (withReturns text)) number line next =
    (emptyHotkey (.ofText text) number line next).map (Diagnostic.shift (.ofReturns text)) := by
  unfold emptyHotkey
  dsimp only
  split
  · next trigger stripped =>
      split
      · next shown =>
          have shown : isVoid trigger = false := by simpa using (Bool.and_eq_true_iff.mp shown).2
          obtain ⟨gap, after, split, found⟩ := emptyHotkey_part stripped shown
          rw [bytesBefore, found, Option.getD_some, lineSpan_withReturns h split]
          rfl
      · rfl
  · rfl

include h in
theorem lineFindings_withReturns (next : Option (List Char)) :
    lineFindings (.ofText (withReturns text)) number line next =
    (lineFindings (.ofText text) number line next).map (Diagnostic.shift (.ofReturns text)) := by
  unfold lineFindings
  split
  · rfl
  · split
    · rfl
    · rw [legacyAssignment_withReturns h, functionNaming_withReturns h, emptyHotkey_withReturns h,
        List.map_append, List.map_append]

theorem linesFrom_withReturns {lines : List (List Char)} (placed : ∀ i line, lines[i]? = some line →
      ∃ front back, LineAt text (number + i) front line back) :
    linesFrom (.ofText (withReturns text)) number lines =
      (linesFrom (.ofText text) number lines).map (Diagnostic.shift (.ofReturns text)) := by
  induction lines generalizing number with
  | nil => rfl
  | cons line rest ih =>
      obtain ⟨front, back, here⟩ := placed 0 line rfl
      have later : ∀ i line, rest[i]? = some line → ∃ front back,
          LineAt text (number + 1 + i) front line back := by
        intro i line place
        have here := placed (i + 1) line place
        rwa [Nat.add_comm i 1, ← Nat.add_assoc] at here
      rw [Nat.add_zero] at here
      rw [linesFrom, linesFrom, List.map_append, lineFindings_withReturns here, ih later]

end Lines

end LineChecks

namespace Diagnostic

theorem agree_refl (found : List Diagnostic) : List.Forall₂ Agrees found found :=
  List.forall₂_same.mpr fun _ _ => ⟨rfl, rfl, rfl, rfl, rfl, ⟨rfl, rfl⟩, rfl, rfl⟩

/-- Findings of one level are chosen alike. -/
theorem agree_filter {found found' : List Diagnostic} (h : List.Forall₂ Agrees found found')
    (level : Severity) : List.Forall₂ Agrees
    (found.filter (·.severity = level)) (found'.filter (·.severity = level)) := by
  induction h with
  | nil => exact .nil
  | cons first _ ih =>
      rw [List.filter_cons, List.filter_cons, first.severity]
      split
      · exact .cons first ih
      · exact ih

end Diagnostic

/-- All that the linter looks at moves with the characters. -/
theorem moved_addReturns {source : String} (clean : '\r' ∉ source.toList) :
    Script.Moved (.ofReturns source.toList) source (addReturns source) := by
  have text : (addReturns source).toList = withReturns source.toList := String.toList_ofList
  obtain ⟨tokens, fault⟩ := scan_addReturns clean
  refine ⟨Shift.ofReturns_zero _, tokens, ?_, ?_, ?_, ?_, ?_⟩
  · rw [fault, Option.map_map, Option.map_map]
    rfl
  · rw [text, lines_withReturns clean]
  · intro i line place column inside
    obtain ⟨front, back, here⟩ := lineAt_of_lines place
    rw [Nat.add_comm] at here
    have free : '\n' ∉ line.take column := fun member => here.free (List.mem_of_mem_take member)
    have split : source.toList = (front ++ line.take column) ++ (line.drop column ++ back) := by
      rw [List.append_assoc, ← List.append_assoc (line.take column),
        List.take_append_drop, ← here.split]
    have moved := Position.after_withReturns split
    rw [withReturns_append, withReturns_line free] at moved
    rw [text, here.positionAt inside, here.withReturns.positionAt inside, moved]
  · rw [text, isVoid_withReturns]
  · rw [text]
    exact Pattern.occurs_withReturns clean (by decide)

/-- Violations have places in both texts or in neither, at the same lines and columns. -/
theorem mapM_ofViolation_agree (index index' : LineIndex) (violations : List Violation) :
    Option.Rel (List.Forall₂ Diagnostic.Agrees)
      (violations.mapM (LineChecks.ofViolation index))
      (violations.mapM (LineChecks.ofViolation index')) := by
  induction violations with
  | nil => exact .some .nil
  | cons v rest ih =>
      rw [List.mapM_cons, List.mapM_cons, LineChecks.ofViolation_eq, LineChecks.ofViolation_eq]
      generalize rest.mapM (LineChecks.ofViolation index) = others at ih ⊢
      generalize rest.mapM (LineChecks.ofViolation index') = others' at ih ⊢
      split
      · cases ih with
        | none => exact .none
        | some others => exact .some (.cons ⟨rfl, rfl, rfl, rfl, rfl, ⟨rfl, rfl⟩, rfl, rfl⟩ others)
      · exact .none

/-- The findings of the line checks agree where those about violations do. -/
theorem findings_addReturns {source : String} (clean : '\r' ∉ source.toList)
    (options : DiagnoseOptions) {violations violations' : List Diagnostic}
    (rules : List.Forall₂ Diagnostic.Agrees violations violations') :
    List.Forall₂ Diagnostic.Agrees (LineChecks.findings options source violations)
      (LineChecks.findings options (addReturns source) violations') := by
  have text : (addReturns source).toList = withReturns source.toList := String.toList_ofList
  have placed : ∀ i line, (lines source.toList)[i]? = some line →
      ∃ front back, LineAt source.toList (1 + i) front line back := by
    intro i line place
    rw [Nat.add_comm]
    exact lineAt_of_lines place
  have directive : LineChecks.missingDirective (withReturns source.toList) (lines source.toList) =
      LineChecks.missingDirective source.toList (lines source.toList) := by
    rw [LineChecks.missingDirective, LineChecks.missingDirective, isVoid_withReturns]
  have found := List.rel_append (List.rel_append (List.rel_append
    (LineChecks.brackets_withReturns source.toList ▸
      Diagnostic.all_agree_shift (.ofReturns source.toList) _)
    (Diagnostic.agree_refl
      (LineChecks.missingDirective source.toList (lines source.toList))))
    (LineChecks.linesFrom_withReturns placed ▸
      Diagnostic.all_agree_shift (.ofReturns source.toList) _)) rules
  unfold LineChecks.findings
  dsimp only
  rw [text, lines_withReturns clean, directive]
  split
  · exact Diagnostic.agree_filter found _
  · exact found

theorem diagnose_addReturns {source : String} (clean : '\r' ∉ source.toList)
    (options : DiagnoseOptions) :
    Option.Rel (List.Forall₂ Diagnostic.Agrees) (diagnose options source)
      (diagnose options (addReturns source)) := by
  have text : (addReturns source).toList = withReturns source.toList := String.toList_ofList
  have violations : Standards.validate (addReturns source) = Standards.validate source := by
    rw [Standards.validate, Standards.validate, text, lines_withReturns clean]
  unfold diagnose diagnoseWith
  rw [violations]
  dsimp only
  split
  · have rules := mapM_ofViolation_agree (.ofSource source) (.ofSource (addReturns source))
      (Standards.validate source)
    generalize (Standards.validate source).mapM (LineChecks.ofViolation (.ofSource source)) =
      violations at rules ⊢
    generalize (Standards.validate source).mapM
      (LineChecks.ofViolation (.ofSource (addReturns source))) = violations' at rules ⊢
    cases rules with
    | none => exact .none
    | some rules => exact .some (findings_addReturns clean options rules)
  · exact .some (findings_addReturns clean options .nil)

end ScriptLens
