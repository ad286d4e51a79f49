import ScriptLens.Proofs.Brackets.Agreement
import ScriptLens.Proofs.Lint.Listing
import ScriptLens.Proofs.Print.Trees
import ScriptLens.Proofs.Spans.Nesting
import ScriptLens.Proofs.Text.Places

/-!
The findings of the linter are about ranges in the script. Most of them are about tokens, some about
nodes of the tree, and the findings about indentation about the blanks at the start of a line.
-/

namespace ScriptLens

namespace SpanTree

variable {n t : SpanTree} {ts : List SpanTree}

theorem self_mem_nodes (t : SpanTree) : t ∈ t.nodes := by
  obtain ⟨span, parts⟩ := t
  rw [nodes_node]
  exact List.mem_cons_self

theorem mem_allNodes_of_nodes (tree : t ∈ ts) (node : n ∈ t.nodes) : n ∈ allNodes ts := by
  induction ts with
  | nil => cases tree
  | cons first rest ih =>
      rw [allNodes_cons]
      rcases List.mem_cons.mp tree with rfl | later
      · exact List.mem_append_left _ node
      · exact List.mem_append_right _ (ih later)

theorem mem_nodes_of_parts {span : Span} (node : n ∈ allNodes ts) :
    n ∈ (SpanTree.node span ts).nodes := by
  rw [nodes_node]
  exact List.mem_cons_of_mem _ node

end SpanTree

namespace Stmt

open SpanTree

theorem listsInside_eq (body : List Stmt) : listsInside body = body.flatMap listsOf := by
  induction body with
  | nil => rw [listsInside, List.flatMap_nil]
  | cons s rest ih => rw [listsInside, ih, List.flatMap_cons]

/-- The nodes of the statements in the lists are all among some nodes. -/
def NodesIn (nodes : List SpanTree) (lists : List (List Stmt)) : Prop :=
  ∀ body ∈ lists, ∀ s ∈ body, ∀ n ∈ s.spans.nodes, n ∈ nodes

theorem NodesIn.mono {nodes more : List SpanTree} {lists : List (List Stmt)}
    (h : NodesIn nodes lists) (inside : ∀ n ∈ nodes, n ∈ more) : NodesIn more lists :=
  fun body list s member n node => inside n (h body list s member n node)

/-- A list and the lists inside it keep to the nodes of its statements. -/
theorem nodesIn_lists {body : List Stmt} (h : ∀ s ∈ body, NodesIn s.spans.nodes (listsOf s)) :
    NodesIn (allNodes (bodySpans body)) (body :: listsInside body) := by
  rw [bodySpans_eq]
  have among {s : Stmt} (member : s ∈ body) {n : SpanTree} (node : n ∈ s.spans.nodes) :
      n ∈ allNodes (body.map spans) :=
    mem_allNodes_of_nodes (List.mem_map_of_mem member) node
  intro l list s member n node
  rcases List.mem_cons.mp list with rfl | inside
  · exact among member node
  · rw [listsInside_eq, List.mem_flatMap] at inside
    obtain ⟨outer, here, inside⟩ := inside
    exact among here (h outer here l inside s member n node)

/-- The statements inside a statement keep to its nodes. -/
theorem nodesIn_listsOf (s : Stmt) : NodesIn s.spans.nodes (listsOf s) := by
  have none (nodes : List SpanTree) : NodesIn nodes [] := by
    intro body list
    cases list
  have behind {span : Span} (front : List SpanTree) {body : List Stmt}
      (ih : ∀ s ∈ body, NodesIn s.spans.nodes (listsOf s)) :
      NodesIn (SpanTree.node span (front ++ bodySpans body)).nodes (body :: listsInside body) := by
    refine (nodesIn_lists ih).mono fun n node => mem_nodes_of_parts ?_
    rw [allNodes_append]
    exact List.mem_append_right _ node
  refine tree_induction (fun s => NodesIn s.spans.nodes (listsOf s))
    (fun chain => NodesIn (chainSpans chain).nodes (listsOfChain chain))
    (fun rest => NodesIn (allNodes (alternateSpans rest)) (listsOfAlternate rest))
    ?ifs ?whileLoop ?forLoop ?loop ?classDecl ?function ?returns ?breaks ?continues ?hotkey
    ?directive ?expression ?link ?absent ?elseIf ?otherwise s
  case ifs =>
    intro chain ih
    rw [spans, listsOf]
    exact ih
  case whileLoop =>
    intro test body span ih
    rw [spans, listsOf]
    exact behind [test.spans] ih
  case forLoop =>
    intro names iterable body span ih
    rw [spans, listsOf]
    exact behind [iterable.spans] ih
  case loop =>
    intro count body span ih
    rw [spans, listsOf]
    exact behind _ ih
  case classDecl =>
    intro name nameSpan base body span ih
    rw [spans, listsOf]
    exact behind [.node nameSpan []] ih
  case function =>
    intro name nameSpan params body isStatic span ih
    rw [spans, listsOf, ← List.cons_append]
    exact behind _ ih
  case hotkey =>
    intro trigger body span ih
    rw [spans, listsOf]
    exact behind [] ih
  case link =>
    intro test consequent rest span ih later
    rw [chainSpans, listsOfChain]
    intro l list
    rcases List.mem_append.mp list with here | below
    · refine (nodesIn_lists ih).mono ?_ l here
      intro n node
      apply mem_nodes_of_parts
      rw [allNodes_cons, allNodes_append]
      exact List.mem_append_right _ (List.mem_append_left _ node)
    · refine later.mono ?_ l below
      intro n node
      apply mem_nodes_of_parts
      rw [allNodes_cons, allNodes_append]
      exact List.mem_append_right _ (List.mem_append_right _ node)
  case elseIf =>
    intro next ih
    rw [alternateSpans, listsOfAlternate]
    refine ih.mono fun n node => ?_
    rw [allNodes_cons]
    exact List.mem_append_left _ node
  case otherwise =>
    intro body ih
    rw [alternateSpans, listsOfAlternate]
    exact nodesIn_lists ih
  case absent =>
    rw [listsOfAlternate]
    exact none _
  all_goals
    intros
    rw [listsOf]
    exact none _

/-- All statements of a script keep to the nodes of its tree. -/
theorem nodesIn_program (program : Program) : NodesIn program.spans.nodes (lists program.body) :=
  (nodesIn_lists fun s _ => nodesIn_listsOf s).mono fun _ node => mem_nodes_of_parts node

/-- The name of the function that a statement calls has a node in the tree. -/
theorem rootCall_node {s : Stmt} {name : String} {span : Span}
    (call : Lint.rootCall? s = some (name, span)) : .node span [] ∈ s.spans.nodes := by
  have called {e : Expr} (h : e.calledName? = some (name, span)) :
      .node span [] ∈ e.spans.nodes := by
    unfold Expr.calledName? at h
    split at h
    · cases h
      rw [Expr.spans, Expr.spans]
      exact mem_nodes_of_parts (mem_allNodes_of_nodes List.mem_cons_self (self_mem_nodes _))
    · cases h
  unfold Lint.rootCall? at call
  split at call
  · next target value inner outer =>
      rw [spans, Expr.spans]
      have inside : value.spans ∈ [target.spans, value.spans] :=
        List.mem_cons_of_mem _ List.mem_cons_self
      exact mem_nodes_of_parts (mem_allNodes_of_nodes List.mem_cons_self
        (mem_nodes_of_parts (mem_allNodes_of_nodes inside (called call))))
  · rw [spans]
    exact mem_nodes_of_parts (mem_allNodes_of_nodes List.mem_cons_self (called call))
  · cases call

end Stmt

namespace Lint

variable {P : Span → Prop} {tokens : List Token}

theorem brackets_ranges (each : ∀ t ∈ tokens, P t.span) : ∀ d ∈ brackets tokens, P d.range := by
  intro d member
  obtain ⟨b, -, found⟩ := List.mem_flatMap.mp (Diagnostic.mem_inOrder.mp member)
  obtain ⟨closers, openers⟩ := Bracket.pair_mem (b := b) [] tokens
  rw [Bracket.findings] at found
  rcases List.mem_append.mp found with closing | opening
  · obtain ⟨t, left, rfl⟩ := List.mem_map.mp closing
    cases b <;> exact each t (closers t left).1
  · obtain ⟨t, left, rfl⟩ := List.mem_map.mp opening
    rcases openers t (List.mem_reverse.mp left) with none | inside
    · cases none
    · exact each t inside.1

theorem pairFindings_ranges {previous after : Option Token} {current next : Token}
    (first : P current.span) (second : P next.span) (both : P ⟨current.start, next.stop⟩) :
    ∀ d ∈ pairFindings previous current next after, P d.range := by
  rw [pairFindings]
  simp only [List.forall_mem_append]
  refine ⟨⟨?_, ?_⟩, ?_⟩
  all_goals
    intro d member
    split at member
    · rw [List.mem_singleton.mp member]
      assumption
    · cases member

theorem sequencesFrom_ranges (previous : Option Token) (each : ∀ t ∈ tokens, P t.span)
    (pairs : tokens.Pairwise fun a b => P ⟨a.start, b.stop⟩) :
    ∀ d ∈ sequencesFrom previous tokens, P d.range := by
  induction tokens generalizing previous with
  | nil => intro d member; cases member
  | cons current rest ih =>
      cases rest with
      | nil => intro d member; cases member
      | cons next rest =>
          obtain ⟨first, later⟩ := List.pairwise_cons.mp pairs
          obtain ⟨here, others⟩ := List.forall_mem_cons.mp each
          rw [sequencesFrom, List.forall_mem_append]
          exact ⟨pairFindings_ranges here (others _ List.mem_cons_self)
            (first _ List.mem_cons_self), ih (some current) others later⟩

theorem readOnlyAssignments_ranges (each : ∀ t ∈ tokens, P t.span) :
    ∀ d ∈ readOnlyAssignments tokens, P d.range := by
  induction tokens with
  | nil => intro d member; cases member
  | cons t rest ih =>
      obtain ⟨here, others⟩ := List.forall_mem_cons.mp each
      rw [readOnlyAssignments, List.forall_mem_append]
      refine ⟨?_, ih others⟩
      intro d member
      split at member
      · rw [List.mem_singleton.mp member]
        exact here
      · cases member

theorem unreachable_ranges {body : List Stmt} (each : ∀ s ∈ body, P s.span) :
    ∀ d ∈ unreachable body, P d.range := by
  induction body with
  | nil => intro d member; cases member
  | cons first rest ih =>
      cases rest with
      | nil => intro d member; cases member
      | cons second rest =>
          obtain ⟨_, others⟩ := List.forall_mem_cons.mp each
          rw [unreachable, List.forall_mem_append]
          refine ⟨?_, ih others⟩
          intro d member
          split at member
          · rw [List.mem_singleton.mp member]
            exact others _ List.mem_cons_self
          · cases member

theorem duplicates_ranges {body : List Stmt} (seen : List String)
    (each : ∀ s ∈ body, ∀ name nameSpan params inner isStatic span, s = .function name nameSpan
      params inner isStatic span → P nameSpan) : ∀ d ∈ duplicates seen body, P d.range := by
  induction body generalizing seen with
  | nil => intro d member; cases member
  | cons s rest ih =>
      obtain ⟨here, others⟩ := List.forall_mem_cons.mp each
      cases s with
      | function name nameSpan params inner isStatic span =>
          rw [duplicates, List.forall_mem_append]
          refine ⟨?_, ih _ others⟩
          intro d member
          split at member
          · rw [List.mem_singleton.mp member]
            exact here _ _ _ _ _ _ rfl
          · cases member
      | _ =>
          rw [duplicates]
          · exact ih seen others
          · simp

/-- Findings that need the tree are about its nodes and about tokens. -/
theorem tree_ranges {program : Program} (each : ∀ t ∈ tokens, P t.span)
    (nodes : ∀ n ∈ program.spans.nodes, P n.span) : ∀ d ∈ tree tokens program, P d.range := by
  have within := Stmt.nodesIn_program program
  have body : program.body ∈ Stmt.lists program.body := List.mem_cons_self
  intro d member
  rw [tree, Diagnostic.mem_inOrder] at member
  rcases List.mem_append.mp member with inTree | readOnly
  · rcases List.mem_append.mp inTree with undefined | listed
    · obtain ⟨s, here, found⟩ := List.mem_filterMap.mp undefined
      obtain ⟨⟨name, span⟩, call, found⟩ := Option.bind_eq_some_iff.mp found
      dsimp only at found
      obtain ⟨_, found⟩ := Option.ite_none_left_eq_some.mp found
      cases found
      exact nodes _ (within _ body s here _ (Stmt.rootCall_node call))
    · obtain ⟨l, list, found⟩ := List.mem_flatMap.mp listed
      rcases List.mem_append.mp found with dead | double
      · refine unreachable_ranges (fun s here => ?_) d dead
        rw [← s.spans_span]
        exact nodes _ (within l list s here _ (SpanTree.self_mem_nodes _))
      · refine duplicates_ranges [] ?_ d double
        rintro s here name nameSpan params inner isStatic span rfl
        refine nodes (.node nameSpan []) (within l list _ here _ ?_)
        rw [Stmt.spans]
        exact SpanTree.mem_nodes_of_parts
          (SpanTree.mem_allNodes_of_nodes List.mem_cons_self (SpanTree.self_mem_nodes _))
  · exact readOnlyAssignments_ranges each d readOnly

theorem namesFrom_ranges {settings : LintSettings} (reported : List String)
    (previous : Option Token) (each : ∀ t ∈ tokens, P t.span) :
    ∀ d ∈ namesFrom settings reported previous tokens, P d.range := by
  induction tokens generalizing reported previous with
  | nil => intro d member; cases member
  | cons t rest ih =>
      obtain ⟨here, others⟩ := List.forall_mem_cons.mp each
      rw [namesFrom]
      split
      · split
        · next e found =>
            have about : e.range = t.span := by
              unfold nameFinding? at found
              split at found
              · cases found
                rfl
              · obtain ⟨_, same⟩ := Option.ite_none_right_eq_some.mp found
                cases same
                rfl
            refine List.forall_mem_cons.mpr ⟨?_, ih _ _ others⟩
            rw [about]
            exact here
        · exact ih _ _ others
      · exact ih _ _ others

theorem oldReferences_ranges (each : ∀ t ∈ tokens, P t.span) : ∀ d ∈ oldReferences tokens,
    P d.range := by
  intro d member
  obtain ⟨t, here, found⟩ := List.mem_filterMap.mp member
  obtain ⟨_, same⟩ := Option.ite_none_right_eq_some.mp found
  cases same
  exact each t here

theorem loopDepthFrom_ranges {limit : UInt64} (opened : List Bool) (pending : Bool)
    (each : ∀ t ∈ tokens, P t.span) :
    ∀ d ∈ loopDepthFrom limit opened pending tokens, P d.range := by
  induction tokens generalizing opened pending with
  | nil => intro d member; cases member
  | cons t rest ih =>
      obtain ⟨here, others⟩ := List.forall_mem_cons.mp each
      rw [loopDepthFrom]
      split
      · refine List.forall_mem_append.mpr ⟨?_, ih _ _ others⟩
        intro d member
        split at member
        · rw [List.mem_singleton.mp member]
          exact here
        · cases member
      · split <;> exact ih _ _ others

theorem dangerousFrom_ranges (previous : Option Token) (each : ∀ t ∈ tokens, P t.span) :
    ∀ d ∈ dangerousFrom previous tokens, P d.range := by
  induction tokens generalizing previous with
  | nil => intro d member; cases member
  | cons t rest ih =>
      obtain ⟨here, others⟩ := List.forall_mem_cons.mp each
      rw [dangerousFrom, List.forall_mem_append]
      refine ⟨?_, ih _ others⟩
      intro d member
      split at member
      · rw [List.mem_singleton.mp member]
        exact here
      · cases member

theorem indentNotes_ranges (width : Nat) (tokens : List Token) (text : List Char) :
    ∀ d ∈ indentNotes width text tokens 1 0 (Text.lines text), d.range.In text := by
  intro d member
  obtain ⟨i, line, place, found⟩ := mem_indentNotes.mp member
  obtain ⟨front, back, place⟩ := Text.lineAt_of_lines place
  rw [indentNote_some found, Nat.add_comm 1]
  exact place.columns (Nat.zero_le _) (List.takeWhile_sublist _).length_le

theorem style_ranges {settings : LintSettings} {text : List Char} {indents : List Diagnostic}
    (each : ∀ t ∈ tokens, t.span.In text) (noted : ∀ d ∈ indents, d.range.In text) :
    ∀ d ∈ style settings text tokens indents, d.range.In text := by
  intro d member
  rw [style, Diagnostic.mem_inOrder] at member
  simp only [List.mem_append] at member
  rcases member with ((((names | indent) | strings) | loops) | dangers) | version
  · exact namesFrom_ranges _ _ each d names
  · exact noted d indent
  · exact oldReferences_ranges each d strings
  · exact loopDepthFrom_ranges _ _ each d loops
  · exact dangerousFrom_ranges _ each d dangers
  · unfold missingVersion at version
    split at version
    · rw [List.mem_singleton.mp version]
      exact Span.in_point (Position.in_start text)
    · cases version

end Lint

/-- The tokens of a scan stand in the script, one behind the other. -/
theorem scan_tokens_in (source : String) :
    (∀ t ∈ (scan source).tokens, t.span.In source.toList) ∧
      (scan source).tokens.Pairwise fun a b => (Span.mk a.start b.stop).In source.toList := by
  obtain ⟨read, rest, split, tiled⟩ := lineTokens_tiled source
  have ends : (Position.start.after source.toList).In source.toList :=
    Position.in_after (List.append_nil _).symm
  have inside : ∀ t ∈ lineTokens source, t.span.In source.toList := fun t member =>
    tiled.span_in split member
  rw [scan_tokens]
  refine ⟨?_, List.pairwise_append.mpr ⟨?_, List.pairwise_singleton _ _, ?_⟩⟩
  · intro t member
    rcases List.mem_append.mp member with before | last
    · exact inside t before
    · rw [List.mem_singleton.mp last]
      exact Span.in_point ends
  · refine tiled.ordered.imp_of_mem ?_
    intro a b first second apart
    have upTo : a.start.offset ≤ a.stop.offset := (inside a first).ordered
    have upTo' : b.start.offset ≤ b.stop.offset := (inside b second).ordered
    exact ⟨(inside a first).start, (inside b second).stop,
      show a.start.offset ≤ b.stop.offset by omega⟩
  · intro a first b last
    rw [List.mem_singleton.mp last]
    refine ⟨(inside a first).start, ends, ?_⟩
    have below := (inside a first).start.inside
    rw [Position.after_offset, Position.start_offset, Nat.zero_add]
    exact below

/-- The nodes of the tree of a script are about ranges in it. -/
theorem parse_nodes_in {source : String} {tokens : List Token}
    (scans : tokenize source = .ok tokens) :
    ∀ n ∈ (parseTokens source tokens).program.spans.nodes, n.span.In source.toList := by
  have parsed : parse source = .ok (parseTokens source tokens) := by
    rw [parse, scans]
    rfl
  obtain ⟨front, last, ps, scanned, laid⟩ := parse_laidOut parsed
  have laminar := laid.sound.laminar (laid.inOrder scanned)
  rw [laid.trees] at laminar
  intro n member
  rw [Program.spans, SpanTree.nodes_node, Stmt.bodySpans_eq] at member
  rcases List.mem_cons.mp member with rfl | inside
  · change (parseTokens source tokens).program.span.In _
    rw [laid.span, scanned.stop]
    exact ⟨Position.in_start _, Position.in_after (List.append_nil _).symm, Nat.zero_le _⟩
  · have within := laminar.trees n inside
    obtain ⟨x, hx, y, hy, start, stop⟩ := within.edges
    have standing {t : Token} (leaf : t ∈ Piece.leaves ps) : t.span.In source.toList := by
      rw [laid.leaves] at leaf
      exact scanned.tiled.span_in (List.append_nil _).symm (List.mem_filter.mp leaf).1
    refine ⟨?_, ?_, within.ordered (laid.inOrder scanned)⟩
    · rw [start]
      exact (standing hx).start
    · rw [stop]
      exact (standing hy).stop

/-- All findings of the linter are about ranges in the script. -/
theorem listing_ranges (settings : LintSettings) (source : String) :
    ∀ d ∈ Lint.listing settings source, d.range.In source.toList := by
  obtain ⟨each, pairs⟩ := scan_tokens_in source
  intro d member
  simp only [Lint.listing, Lint.findings, List.mem_append] at member
  rcases member with (((brackets | sequences) | inTree) | style) | fault
  · exact Lint.brackets_ranges each d brackets
  · rw [Lint.sequences, Diagnostic.mem_inOrder] at sequences
    exact Lint.sequencesFrom_ranges none each pairs d sequences
  · split at inTree
    · next clean =>
        have scans : tokenize source = .ok (scan source).tokens := by
          unfold tokenize
          simp only [clean]
        exact Lint.tree_ranges each (parse_nodes_in scans) d inTree
    · cases inTree
  · exact Lint.style_ranges each (Lint.indentNotes_ranges _ _ _) d style
  · cases stops : (scan source).fault with
    | none =>
        rw [stops] at fault
        cases fault
    | some e =>
        rw [stops] at fault
        rw [List.mem_singleton.mp fault]
        obtain ⟨before, behind, text, _, _, _, place, _⟩ := Scanner.run_open stops
        have here : e.position = Position.start.after before := by
          rw [place]
          exact Scanner.run_here _ _
        exact Span.in_point (here ▸ Position.in_after text)

end ScriptLens
