import ScriptLens.Lint.Basic
import ScriptLens.Proofs.Brackets.Order
import ScriptLens.Proofs.Lint.Places

/-!
The codes of the linter's findings. No two passes share a code but for brackets, so the findings
with a code that only one pass gives are what that pass found, in order.
-/

namespace ScriptLens.Lint

/-- All findings have one of these codes. -/
def Coded (codes : List Code) (found : List Diagnostic) : Prop := ∀ d ∈ found, d.code ∈ codes

section Lists

variable {codes more : List Code} {found others : List Diagnostic} {c : Code}

theorem coded_nil : Coded codes [] := List.forall_mem_nil _

theorem Coded.append (h : Coded codes found) (h' : Coded codes others) :
    Coded codes (found ++ others) :=
  List.forall_mem_append.mpr ⟨h, h'⟩

theorem Coded.mono (h : Coded codes found) (inside : codes ⊆ more) : Coded more found :=
  fun d member => inside (h d member)

theorem coded_one {severity : Severity} {message : String} {range : Span} (member : c ∈ codes)
    (holds : Prop)
    [Decidable holds] : Coded codes (if holds then [.lint severity c message range] else []) := by
  split
  · exact List.forall_mem_singleton.mpr member
  · exact coded_nil

theorem Coded.inOrder (h : Coded codes found) : Coded codes (Diagnostic.inOrder found) :=
    fun d member =>
  h d (Diagnostic.mem_inOrder.mp member)

theorem Coded.none (h : Coded codes found) (other : c ∉ codes) : found.filter (·.code = c) = [] :=
  List.filter_eq_nil_iff.mpr fun d member same => other (of_decide_eq_true same ▸ h d member)

theorem Coded.all (h : Coded [c] found) : found.filter (·.code = c) = found :=
  List.filter_eq_self.mpr fun d member => decide_eq_true (List.mem_singleton.mp (h d member))

end Lists

variable {tokens : List Token}

theorem brackets_coded (tokens : List Token) : Coded [.unmatchedBrace, .unmatchedParen,
      .unmatchedBracket, .unclosedBracket] (brackets tokens) := by
  refine Coded.inOrder fun d member => ?_
  obtain ⟨b, _, found⟩ := List.mem_flatMap.mp member
  rcases List.mem_append.mp found with closing | opening
  · obtain ⟨t, _, rfl⟩ := List.mem_map.mp closing
    cases b <;> simp [Bracket.unmatched, Diagnostic.lint]
  · obtain ⟨t, _, rfl⟩ := List.mem_map.mp opening
    simp [Bracket.unclosed, Diagnostic.lint]

theorem sequencesFrom_coded (previous : Option Token) (tokens : List Token) :
    Coded [.invalidOperatorSequence, .useAssignmentOperator, .incompleteIfStatement]
    (sequencesFrom previous tokens) := by
  induction tokens generalizing previous with
  | nil => exact coded_nil
  | cons current rest ih =>
      cases rest with
      | nil => exact coded_nil
      | cons next rest =>
          rw [sequencesFrom, pairFindings]
          exact (((coded_one (by decide) _).append (coded_one (by decide) _)).append
            (coded_one (by decide) _)).append (ih _)

theorem undefinedCalls_coded (program : Program) :
    Coded [.undefinedFunction] (undefinedCalls program) := by
  intro d member
  obtain ⟨s, _, found⟩ := List.mem_filterMap.mp member
  obtain ⟨call, _, found⟩ := Option.bind_eq_some_iff.mp found
  obtain ⟨_, found⟩ := Option.ite_none_left_eq_some.mp found
  cases found
  exact List.mem_cons_self

theorem unreachable_coded (body : List Stmt) : Coded [.unreachableCode] (unreachable body) := by
  induction body with
  | nil => exact coded_nil
  | cons first rest ih =>
      cases rest with
      | nil => exact coded_nil
      | cons second rest =>
          rw [unreachable]
          exact (coded_one (by decide) _).append ih

theorem duplicates_coded (seen : List String) (body : List Stmt) :
    Coded [.duplicateFunction] (duplicates seen body) := by
  fun_induction duplicates seen body with
  | case1 => exact coded_nil
  | case2 _ _ _ _ _ _ _ _ ih => exact (coded_one (by decide) _).append ih
  | case3 _ _ _ _ ih => exact ih

theorem readOnlyAssignments_coded (tokens : List Token) :
    Coded [.readOnlyAssignment] (readOnlyAssignments tokens) := by
  induction tokens with
  | nil => exact coded_nil
  | cons t rest ih =>
      rw [readOnlyAssignments]
      exact (coded_one (by decide) _).append ih

/-- The codes of findings that need the tree. -/
def treeCodes : List Code :=
  [.undefinedFunction, .unreachableCode, .duplicateFunction, .readOnlyAssignment]

theorem listFindings_coded (body : List Stmt) :
    Coded [.unreachableCode, .duplicateFunction] (listFindings body) :=
  ((unreachable_coded body).mono (by decide)).append ((duplicates_coded [] body).mono (by decide))

theorem lists_coded (lists : List (List Stmt)) :
    Coded [.unreachableCode, .duplicateFunction] (lists.flatMap listFindings) := by
  intro d member
  obtain ⟨list, _, found⟩ := List.mem_flatMap.mp member
  exact listFindings_coded list d found

theorem tree_coded (tokens : List Token) (program : Program) :
    Coded treeCodes (tree tokens program) :=
  ((((undefinedCalls_coded program).mono (by decide)).append ((lists_coded _).mono
    (by decide))).append ((readOnlyAssignments_coded tokens).mono (by decide))).inOrder

theorem namesFrom_coded (settings : LintSettings) (reported : List String) (previous : Option Token)
    (tokens : List Token) : Coded [.hungarianNotation, .shortVariableName]
    (namesFrom settings reported previous tokens) := by
  fun_induction namesFrom settings reported previous tokens with
  | case1 => exact coded_nil
  | case2 reported previous t rest _ d found ih =>
      refine List.forall_mem_cons.mpr ⟨?_, ih⟩
      unfold nameFinding? at found
      split at found
      · cases found
        exact List.mem_cons_self
      · obtain ⟨_, same⟩ := Option.ite_none_right_eq_some.mp found
        cases same
        exact List.mem_cons_of_mem _ List.mem_cons_self
  | case3 _ _ _ _ _ _ ih => exact ih
  | case4 _ _ _ _ _ ih => exact ih

theorem indentNotes_coded (width : Nat) (source : List Char) (tokens : List Token)
    (number level : Nat) (lines : List (List Char)) :
    Coded [.inconsistentIndentation] (indentNotes width source tokens number level lines) := by
  intro d member
  obtain ⟨_, _, _, found⟩ := mem_indentNotes.mp member
  rw [indentNote_some found]
  exact List.mem_cons_self

theorem oldReferences_coded (tokens : List Token) :
    Coded [.oldVariableSyntax] (oldReferences tokens) := by
  intro d member
  obtain ⟨t, _, found⟩ := List.mem_filterMap.mp member
  obtain ⟨_, same⟩ := Option.ite_none_right_eq_some.mp found
  cases same
  exact List.mem_cons_self

theorem loopDepthFrom_coded (limit : UInt64) (opened : List Bool) (pending : Bool)
    (tokens : List Token) :
    Coded [.deeplyNestedLoop] (loopDepthFrom limit opened pending tokens) := by
  induction tokens generalizing opened pending with
  | nil => exact coded_nil
  | cons t rest ih =>
      rw [loopDepthFrom]
      split
      · exact (coded_one (by decide) _).append (ih _ _)
      · split <;> exact ih _ _

theorem dangerousFrom_coded (previous : Option Token) (tokens : List Token) :
    Coded [.potentialSecurityRisk] (dangerousFrom previous tokens) := by
  induction tokens generalizing previous with
  | nil => exact coded_nil
  | cons t rest ih =>
      rw [dangerousFrom]
      exact (coded_one (by decide) _).append (ih _)

theorem missingVersion_coded (settings : LintSettings) (source : List Char) :
    Coded [.missingRequires] (missingVersion settings source) := coded_one (by decide) _

theorem fault_coded (fault : Option LexError) :
    Coded [.parseError] (fault.map LexError.diagnostic).toList := by
  cases fault with
  | none => exact coded_nil
  | some e => exact List.forall_mem_singleton.mpr List.mem_cons_self

/-- The codes of findings about style. -/
def styleCodes : List Code :=
  [.hungarianNotation, .shortVariableName, .inconsistentIndentation, .oldVariableSyntax,
    .deeplyNestedLoop, .potentialSecurityRisk, .missingRequires]

theorem style_coded (settings : LintSettings) (source : List Char) (tokens : List Token)
    {indents : List Diagnostic} (noted : Coded [.inconsistentIndentation] indents) :
    Coded styleCodes (style settings source tokens indents) :=
  ((((((namesFrom_coded settings [] none tokens).mono (by decide)).append
    (noted.mono (by decide))).append
    ((oldReferences_coded tokens).mono (by decide))).append
    ((loopDepthFrom_coded _ _ _ tokens).mono (by decide))).append
    ((dangerousFrom_coded none tokens).mono (by decide))).append
    ((missingVersion_coded settings source).mono (by decide)) |>.inOrder

/-- Findings with a code of style are those of style. -/
theorem listing_style (settings : LintSettings) (source : String) {c : Code}
    (member : c ∈ styleCodes) : (listing settings source).filter (·.code = c) =
      (style settings source.toList (scan source).tokens (remarks settings source)).filter
        (·.code = c) := by
  have others : c ∉ [.unmatchedBrace, .unmatchedParen, .unmatchedBracket, .unclosedBracket] ∧
      c ∉ [.invalidOperatorSequence, .useAssignmentOperator, .incompleteIfStatement] ∧
      c ∉ treeCodes ∧ c ∉ [.parseError] := by
    revert c
    decide
  obtain ⟨brackets, pairs, trees, faults⟩ := others
  unfold listing findings
  dsimp only
  simp only [List.filter_append, (brackets_coded _).none brackets, sequences,
    (sequencesFrom_coded _ _).inOrder.none pairs,
    (fault_coded _).none faults, List.nil_append, List.append_nil]
  split
  · rw [(tree_coded _ _).none trees, List.nil_append]
  · rfl

/-- Findings of a script that scans, with a code of the tree, are those that need the tree. -/
theorem listing_tree (settings : LintSettings) {source : String}
    (clean : (scan source).fault = none) {c : Code}
    (member : c ∈ treeCodes) : (listing settings source).filter (·.code = c) =
      (tree (scan source).tokens (parseTokens source (scan source).tokens).program).filter
      (·.code = c) := by
  have others : c ∉ [.unmatchedBrace, .unmatchedParen, .unmatchedBracket, .unclosedBracket] ∧
      c ∉ [.invalidOperatorSequence, .useAssignmentOperator, .incompleteIfStatement] ∧
      c ∉ styleCodes := by
    revert c
    decide
  obtain ⟨brackets, pairs, styles⟩ := others
  unfold listing findings
  dsimp only
  simp only [clean, Option.map_none, Option.toList_none, List.filter_append,
    (brackets_coded _).none brackets, sequences, (sequencesFrom_coded _ _).inOrder.none pairs,
    (style_coded _ _ _ (indentNotes_coded _ _ _ _ _ _)).none styles, List.nil_append,
    List.append_nil]

/-- Findings in the order of their places are put in order already. -/
theorem inOrder_eq_self {found : List Diagnostic}
    (order : found.Pairwise fun a b => a.range.start.offset ≤ b.range.start.offset) :
    Diagnostic.inOrder found = found :=
  Sorting.sort_eq_self (by simpa using order)

end ScriptLens.Lint
