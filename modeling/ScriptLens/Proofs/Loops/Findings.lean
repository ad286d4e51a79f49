import ScriptLens.Lint.Basic
import ScriptLens.Proofs.Brackets.Agreement
import ScriptLens.Proofs.Lint.Codes
import ScriptLens.Proofs.Loops.Statements

/-!
The linter's findings about deep loops, next to the loops of the tree. The linter walks over the
tokens and takes a brace as a loop's unless a line break comes first that is not right before the
brace; so it overlooks the brace of a loop behind a comment on a line of its own, and behind a
header of several lines. Apart from these the depth is that of the tree.
-/

namespace ScriptLens

namespace Lint

/-- Whether the next opening brace is taken as a loop's: the only line breaks before it are right
before it. -/
def unbroken : List Token → Bool
  | [] => false
  | t :: rest =>
    match t.kind with
    | .lBrace => true
    | .newline => (rest.find? (·.kind != .newline)).any (·.kind = .lBrace)
    | _ => unbroken rest

/-- Whether the brace behind a keyword is taken as its loop's. -/
def takesBrace (tokens : List Token) (keyword : Position) : Bool :=
  unbroken (tokens.filter (keyword.offset < ·.start.offset))

/-- The finding about a loop that is nested too deeply. -/
def tooDeep (limit : UInt64) (depth : Nat) (range : Span) : Diagnostic :=
  .lint .info .deeplyNestedLoop ("Loop nested " ++ toString depth ++ " levels deep (max " ++
    toString limit.toNat ++ "); consider extracting a function") range

/-- The finding is the one about a loop, and at its keyword. -/
def Reports (limit : UInt64) (tokens : List Token) (d : Diagnostic)
    (loop : Position × Nat) : Prop :=
  ∃ t ∈ tokens, t.kind.isLoop = true ∧ t.start = loop.1 ∧ d = tooDeep limit loop.2 t.span

section Counter

variable {limit : UInt64} {opens : Position → Bool} {opened : List Bool} {pending : Bool}
  {tokens rest : List Token}

section Equations

variable {t : Token}

theorem loopDepthFrom_loop (kind : t.kind.isLoop = true) :
    loopDepthFrom limit opened pending (t :: rest) =
    (if limit.toNat < opened.count true + 1 then [tooDeep limit
      (opened.count true + 1) t.span] else []) ++ loopDepthFrom limit opened true rest := by
  rw [loopDepthFrom, if_pos kind]
  rfl

theorem unbroken_open (kind : t.kind = .lBrace) : unbroken (t :: rest) = true := by
  rw [unbroken, kind]

theorem unbroken_newline (kind : t.kind = .newline) :
    unbroken (t :: rest) = (rest.find? (·.kind != .newline)).any (·.kind = .lBrace) := by
  rw [unbroken, kind]

theorem unbroken_other (opens : t.kind ≠ .lBrace) (newline : t.kind ≠ .newline) :
    unbroken (t :: rest) = unbroken rest := by
  rw [unbroken]
  split
  · next same => exact absurd same opens
  · next same => exact absurd same newline
  · rfl

end Equations

/-- Where only line breaks come before a brace it is taken. -/
theorem unbroken_of_find (rest : List Token) :
    ((rest.find? (·.kind != .newline)).any (·.kind = .lBrace) && unbroken rest) =
      (rest.find? (·.kind != .newline)).any (·.kind = .lBrace) := by
  cases rest with
  | nil => rfl
  | cons t rest =>
      by_cases newline : t.kind = .newline
      · rw [unbroken_newline newline, List.find?_cons_of_neg (by simp [newline]), Bool.and_self]
      · rw [List.find?_cons_of_pos (by simpa using newline), Option.any_some]
        by_cases opens : t.kind = .lBrace
        · rw [unbroken_open opens, Bool.and_true]
        · rw [decide_eq_false opens, Bool.false_and]

/-- The findings are about the keywords whose depth is beyond the limit. -/
theorem loopDepthFrom_depths (behind : rest <:+ tokens) (found : ∀ front t back,
      tokens = front ++ t :: back → t.kind.isLoop = true → opens t.start = unbroken back) :
    List.Forall₂ (Reports limit tokens) (loopDepthFrom limit opened pending rest)
      ((depths opens opened (pending && unbroken rest) rest).filter (limit.toNat < ·.2)) := by
  induction rest generalizing opened pending with
  | nil => exact .nil
  | cons t rest ih =>
      have later (opened : List Bool) (pending : Bool) :=
        @ih opened pending ((List.suffix_cons t rest).trans behind)
      by_cases kind : t.kind.isLoop = true
      · obtain ⟨front, place⟩ := behind
        have after := later opened true
        rw [Bool.true_and, ← found front t rest place.symm kind] at after
        rw [loopDepthFrom_loop kind, depths_loop kind, List.filter_cons]
        split
        · next deep =>
            rw [if_pos (by simpa using deep)]
            exact .cons ⟨t, by simp [← place], kind, rfl, rfl⟩ after
        · next shallow =>
            rw [if_neg (by simpa using shallow)]
            exact after
      · rw [loopDepthFrom, if_neg kind]
        split
        · next opens =>
            rw [depths_open opens, unbroken_open opens, Bool.and_true]
            exact later (pending :: opened) false
        · next closes =>
            rw [depths_close closes,
              unbroken_other (by rw [closes]; decide) (by rw [closes]; decide)]
            exact later opened.tail pending
        · next newline =>
            have after :=
              later opened (pending && (rest.find? (·.kind != .newline)).any (·.kind = .lBrace))
            rw [Bool.and_assoc, unbroken_of_find] at after
            rw [depths_calm (by rw [newline]; rfl), unbroken_newline newline]
            exact after
        · next opens closes newline =>
            have calm : t.kind.isCalm = true := by simpa [Kind.isCalm, kind] using ⟨opens, closes⟩
            rw [depths_calm calm, unbroken_other opens newline]
            exact later opened pending

/-- The findings keep the order of the tokens. -/
theorem loopDepthFrom_sublist (limit : UInt64) (opened : List Bool) (pending : Bool)
    (tokens : List Token) :
    ((loopDepthFrom limit opened pending tokens).map (·.range)).Sublist (tokens.map (·.span)) := by
  induction tokens generalizing opened pending with
  | nil => exact .refl _
  | cons t rest ih =>
      by_cases kind : t.kind.isLoop = true
      · rw [loopDepthFrom_loop kind]
        split
        · exact (ih _ _).cons_cons t.span
        · exact (ih _ _).cons t.span
      · rw [loopDepthFrom, if_neg kind]
        split <;> exact (ih _ _).cons t.span

end Counter

theorem style_loops (settings : LintSettings) (source : List Char) {tokens : List Token}
    {indents : List Diagnostic} (noted : Coded [.inconsistentIndentation] indents)
    (order : tokens.Pairwise fun a b => a.start.offset ≤ b.start.offset) :
    (style settings source tokens indents).filter (·.code = .deeplyNestedLoop) =
      loopDepthFrom settings.maxLoopDepth [] false tokens := by
  rw [style, Diagnostic.filter_inOrder]
  simp only [List.filter_append, (namesFrom_coded _ _ _ _).none (c := .deeplyNestedLoop)
    (by decide), noted.none (c := .deeplyNestedLoop) (by decide), (oldReferences_coded _).none
    (c := .deeplyNestedLoop) (by decide), (loopDepthFrom_coded _ _ _ _).all,
    (dangerousFrom_coded _ _).none (c := .deeplyNestedLoop) (by decide),
    (missingVersion_coded _ _).none (c := .deeplyNestedLoop) (by decide), List.nil_append,
    List.append_nil]
  have starts : (tokens.map (·.span)).Pairwise fun a b => a.start.offset ≤ b.start.offset :=
    List.pairwise_map.mpr order
  have ranges : ((loopDepthFrom settings.maxLoopDepth [] false tokens).map (·.range)).Pairwise
      fun a b => a.start.offset ≤ b.start.offset :=
    starts.sublist (loopDepthFrom_sublist _ _ _ _)
  rw [List.pairwise_map] at ranges
  exact inOrder_eq_self ranges

/-- The linter's findings about loops are those of the walk over the tokens. -/
theorem listing_loops (settings : LintSettings) (source : String) :
    (listing settings source).filter (·.code = .deeplyNestedLoop) =
      loopDepthFrom settings.maxLoopDepth [] false (scan source).tokens := by
  rw [listing_style settings source (by decide),
    style_loops settings source.toList (indentNotes_coded _ _ _ _ _ _) (scan_starts source)]

end Lint

namespace Stmt

variable {opens : Position → Bool} {body : List Stmt}

/-- The braces of the loops in some statement lists are all taken as theirs. -/
def AllTaken (opens : Position → Bool) (lists : List (List Stmt)) : Prop :=
  ∀ list ∈ lists, ∀ stmt ∈ list, stmt.loopBody?.isSome → opens stmt.span.start = true

instance (opens : Position → Bool) (lists : List (List Stmt)) :
    Decidable (AllTaken opens lists) := by
  unfold AllTaken
  infer_instance

theorem loopsIn_eq (around : Nat) (body : List Stmt) :
    loopsIn opens around body = body.flatMap (loopsOf opens around) := by
  induction body with
  | nil => rfl
  | cons stmt body ih => rw [loopsIn, ih, List.flatMap_cons]

/-- If the braces of a statement's loops are all taken, then every loop in it counts. -/
def CountsAll (opens : Position → Bool) (stmt : Stmt) : Prop :=
  (stmt.loopBody?.isSome → opens stmt.span.start = true) → AllTaken opens (listsOf stmt) →
    ∀ around, loopsOf opens around stmt = loopsOf (fun _ => true) around stmt

theorem loopsIn_of_each (each : ∀ stmt ∈ body, CountsAll opens stmt)
    (taken : AllTaken opens (lists body)) (around : Nat) :
    loopsIn opens around body = loopsIn (fun _ => true) around body := by
  rw [loopsIn_eq, loopsIn_eq]
  refine List.flatMap_congr fun stmt member =>
    each stmt member (taken body List.mem_cons_self stmt member) ?_ around
  exact fun list inside => taken list (listsOf_subset member inside)

theorem countsAll (opens : Position → Bool) (stmt : Stmt) : CountsAll opens stmt := by
  have repeats {span : Span} {body : List Stmt} (each : ∀ stmt ∈ body, CountsAll opens stmt)
      (here : opens span.start = true) (taken : AllTaken opens (lists body)) (around : Nat) :
      (span.start, around + 1) :: loopsIn opens (around + (opens span.start).toNat) body =
        (span.start, around + 1) :: loopsIn (fun _ => true) (around + true.toNat) body := by
    rw [here, loopsIn_of_each each taken]
  refine tree_induction (CountsAll opens) (fun chain => AllTaken opens (listsOfChain chain) →
      ∀ around, loopsOfChain opens around chain = loopsOfChain (fun _ => true) around chain)
    (fun rest => AllTaken opens (listsOfAlternate rest) →
      ∀ around, loopsOfAlternate opens around rest = loopsOfAlternate (fun _ => true) around rest)
    ?ifs ?whileLoop ?forLoop ?loop ?classDecl ?function ?returns ?breaks ?continues ?hotkey
    ?directive ?expression ?link ?absent ?elseIf ?otherwise stmt
  case ifs => exact fun chain ih _ inside => ih inside
  case classDecl => exact fun _ _ _ body _ ih _ inside => loopsIn_of_each ih inside
  case function => exact fun _ _ _ body _ _ ih _ inside => loopsIn_of_each ih inside
  case hotkey => exact fun _ body _ ih _ inside => loopsIn_of_each ih inside
  case link =>
    intro test consequent rest span ih later taken around
    rw [listsOfChain] at taken
    rw [loopsOfChain, loopsOfChain,
      loopsIn_of_each ih fun list member => taken list (List.mem_append_left _ member),
      later fun list member => taken list (List.mem_append_right _ member)]
  case elseIf => exact fun next ih inside => ih inside
  case otherwise => exact fun body ih inside => loopsIn_of_each ih inside
  case whileLoop => exact fun _ body span ih here inside => repeats ih (here rfl) inside
  case forLoop => exact fun _ _ body span ih here inside => repeats ih (here rfl) inside
  case loop => exact fun _ body span ih here inside => repeats ih (here rfl) inside
  case absent => exact fun _ _ => rfl
  all_goals
    intros
    exact fun _ _ _ => rfl

/-- Where all braces are taken, every loop around counts. -/
theorem loopsIn_allTaken (taken : AllTaken opens (lists body)) (around : Nat) :
    loopsIn opens around body = loopsIn (fun _ => true) around body :=
  loopsIn_of_each (fun stmt _ => countsAll opens stmt) taken around

end Stmt

open Lint

namespace Scanned

variable {source : String} {front before behind : List Token} {last t : Token}

/-- The tokens behind a token are those that start after it. -/
theorem filter_behind (h : Scanned source front last)
    (place : front ++ [last] = before ++ t :: behind)
    (solid : t.kind ≠ .eof) : (front ++ [last]).filter (t.start.offset < ·.start.offset) = behind :=
  h.filter_from place (Nat.lt_succ_self _) (h.start_lt_stop place solid)

end Scanned

/-- The findings about loops are those of the tree. For a script that scans and parses with nothing
dropped, in which all loops have braces and no directive has a loop or a brace behind it on its
line, the linter reports each loop that is nested beyond the limit, in order and at its keyword, and
no other. Of the loops around a loop those count whose braces are taken as theirs; where all are,
that is every loop around it. -/
theorem loop_findings (settings : LintSettings) {source : String} {tokens : List Token}
    {out : ParseOutput} (scans : tokenize source = .ok tokens) (parsed : parse source = .ok out)
    (clean : out.skipped = []) (braced : Stmt.AllBraced tokens (Stmt.lists out.program.body))
    (plain : Token.plainDirectives false tokens = true) :
    Yields settings source (lint settings source) fun found =>
      List.Forall₂ (Reports settings.maxLoopDepth tokens)
        (found.filter (·.code = .deeplyNestedLoop))
        ((Stmt.loopsIn (takesBrace tokens) 0 out.program.body).filter
          (settings.maxLoopDepth.toNat < ·.2)) ∧
      (Stmt.AllTaken (takesBrace tokens) (Stmt.lists out.program.body) →
        List.Forall₂ (Reports settings.maxLoopDepth tokens)
          (found.filter (·.code = .deeplyNestedLoop))
          ((Stmt.loopsIn (fun _ => true) 0 out.program.body).filter
            (settings.maxLoopDepth.toNat < ·.2))) := by
  obtain ⟨front, last, rfl, scanned⟩ := tokenize_scanned scans
  have same : parseTokens source (front ++ [last]) = out := by
    obtain ⟨tokens, scans', rfl⟩ := parse_eq_ok parsed
    rw [scans] at scans'
    cases scans'
    rfl
  subst same
  have reports : List.Forall₂ (Reports settings.maxLoopDepth (front ++ [last]))
      ((listing settings source).filter (·.code = .deeplyNestedLoop))
      ((depths (takesBrace (front ++ [last])) [] false (front ++ [last])).filter
        (settings.maxLoopDepth.toNat < ·.2)) := by
    rw [listing_loops, (fault_of_tokenize scans).2]
    refine loopDepthFrom_depths List.suffix_rfl fun before t behind place kind => ?_
    rw [takesBrace, scanned.filter_behind place (fun atEnd => by rw [atEnd] at kind; cases kind)]
  rw [scanned.depths_eq (takesBrace (front ++ [last])) plain clean braced] at reports
  refine yields_listing ⟨reports, fun taken => ?_⟩
  rwa [Stmt.loopsIn_allTaken taken] at reports

theorem parse_of_scan (source : String) (clean : (scan source).fault = none) :
    tokenize source = .ok (scan source).tokens ∧
    parse source = .ok (parseTokens source (scan source).tokens) := by
  have scans : tokenize source = .ok (scan source).tokens := by
    unfold tokenize
    simp only [clean]
  refine ⟨scans, ?_⟩
  rw [parse, scans]
  rfl

/-- A loop inside another, with the brace of an `if` between them and its own brace on a line of its
own. -/
theorem loop_findings_nested : ∃ source tokens out,
    source = "while f(a) \x7b\n  if b \x7b\n    loop 3\n    \x7b\n    \x7d\n  \x7d\n\x7d\n" ∧
    tokenize source = .ok tokens ∧ parse source = .ok out ∧ out.skipped = [] ∧
    Stmt.AllBraced tokens (Stmt.lists out.program.body) ∧
    Token.plainDirectives false tokens = true ∧
    Stmt.AllTaken (takesBrace tokens) (Stmt.lists out.program.body) ∧
    ((Stmt.loopsIn (fun _ => true) 0 out.program.body).filter (1 < ·.2)).length = 1 ∧
    ∃ found, lint { maxLoopDepth := 1 } source = some found ∧
      List.Forall₂ (Reports 1 tokens) (found.filter (·.code = .deeplyNestedLoop))
        ((Stmt.loopsIn (fun _ => true) 0 out.program.body).filter (1 < ·.2)) := by
  obtain ⟨scans, parsed⟩ :=
    parse_of_scan "while f(a) \x7b\n  if b \x7b\n    loop 3\n    \x7b\n    \x7d\n  \x7d\n\x7d\n"
    (by decide +kernel)
  have yields := loop_findings { maxLoopDepth := 1 } scans parsed (by decide +kernel)
    (by decide +kernel) (by decide +kernel)
  obtain ⟨found, returns, reports⟩ := yields.returns (mt lint_eq_none_iff.mpr (by decide +kernel))
  exact ⟨_, _, _, rfl, scans, parsed, by decide +kernel, by decide +kernel, by decide +kernel,
    by decide +kernel, by decide +kernel, found, returns, reports.2 (by decide +kernel)⟩

/-- A comment on a line of its own in front of its brace hides the outer one of two loops. -/
theorem loop_overlooked : ∃ source tokens out found,
    source = "loop\n; c\n\x7b\nloop \x7b\n\x7d\n\x7d\n" ∧
    tokenize source = .ok tokens ∧ parse source = .ok out ∧ out.skipped = [] ∧
    Stmt.AllBraced tokens (Stmt.lists out.program.body) ∧
    (Stmt.loopsIn (fun _ => true) 0 out.program.body).map Prod.snd = [1, 2] ∧
    lint { maxLoopDepth := 1 } source = some found ∧
    found.filter (·.code = .deeplyNestedLoop) = [] := by
  obtain ⟨scans, parsed⟩ :=
    parse_of_scan "loop\n; c\n\x7b\nloop \x7b\n\x7d\n\x7d\n" (by decide +kernel)
  obtain ⟨found, returns, none⟩ := Option.map_eq_some_iff.mp (show
    (lint { maxLoopDepth := 1 } "loop\n; c\n\x7b\nloop \x7b\n\x7d\n\x7d\n").map
      (fun found => found.filter (·.code = .deeplyNestedLoop)) = some [] by decide +kernel)
  exact ⟨_, _, _, found, rfl, scans, parsed, by decide +kernel, by decide +kernel,
    by decide +kernel, returns, none⟩

end ScriptLens
