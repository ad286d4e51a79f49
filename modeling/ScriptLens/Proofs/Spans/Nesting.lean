import ScriptLens.Proofs.Spans.Script

/-!
Spans nest. Every span of a script that was parsed lies within it with the lines and columns of its
offsets; parts lie inside their node, one behind the other; and dropped statements are listed by
where they end, each of them clear of every node it is not inside of.
-/

namespace ScriptLens

open Piece

namespace SpanTree

/-- The parts of a node lie within it, one behind the other. -/
structure Nested (n : SpanTree) : Prop where
  inside : ∀ p ∈ n.parts, n.span.Contains p.span
  ordered : n.parts.Pairwise fun a b => a.span.Before b.span

end SpanTree

/-- Trees and dropped statements over some tokens: each over tokens that follow one another, trees
side by side one behind the other, parts inside their nodes, and a dropped statement behind or
around those listed before it and inside the nodes that it is not clear of. -/
structure Laminar (tokens : List Token) (ts : List SpanTree) (es : List Skipped) : Prop where
  trees : ∀ n ∈ SpanTree.allNodes ts, n.span.Within tokens
  entries : ∀ e ∈ es, e.span.Within tokens
  ordered : ts.Pairwise fun a b => a.span.Before b.span
  nested : ∀ n ∈ SpanTree.allNodes ts, n.Nested
  listed : es.Pairwise fun a b => a.span.Before b.span ∨ b.span.Contains a.span
  clear : ∀ n ∈ SpanTree.allNodes ts, ∀ e ∈ es, n.span.Apart e.span ∨ n.span.Contains e.span

namespace Laminar

variable {tokens more : List Token} {ts us : List SpanTree} {es fs : List Skipped}

theorem nil : Laminar tokens [] [] := by
  constructor <;> simp

theorem append (order : InOrder (tokens ++ more)) (first : Laminar tokens ts es)
    (second : Laminar more us fs) : Laminar (tokens ++ more) (ts ++ us) (es ++ fs) := by
  refine ⟨?_, ?_, ?_, ?_, ?_, ?_⟩
  · intro n member
    rw [SpanTree.allNodes_append] at member
    rcases List.mem_append.mp member with left | right
    · exact (first.trees n left).left
    · exact (second.trees n right).right
  · intro e member
    rcases List.mem_append.mp member with left | right
    · exact (first.entries e left).left
    · exact (second.entries e right).right
  · apply List.pairwise_append.mpr
    refine ⟨first.ordered, second.ordered, ?_⟩
    intro a left b right
    exact (first.trees a (SpanTree.mem_allNodes left)).before order
      (second.trees b (SpanTree.mem_allNodes right))
  · intro n member
    rw [SpanTree.allNodes_append] at member
    rcases List.mem_append.mp member with left | right
    · exact first.nested n left
    · exact second.nested n right
  · apply List.pairwise_append.mpr
    refine ⟨first.listed, second.listed, ?_⟩
    intro a left b right
    exact .inl ((first.entries a left).before order (second.entries b right))
  · intro n member e entry
    rw [SpanTree.allNodes_append] at member
    rcases List.mem_append.mp member with left | right
    · rcases List.mem_append.mp entry with same | other
      · exact first.clear n left e same
      · exact .inl (.inl ((first.trees n left).before order (second.entries e other)))
    · rcases List.mem_append.mp entry with other | same
      · exact .inl (.inr ((first.entries e other).before order (second.trees n right)))
      · exact second.clear n right e same

/-- A node around trees takes in what was dropped among them. -/
theorem node {span : Span} (order : InOrder tokens) (covers : span.Over tokens)
    (h : Laminar tokens ts es) : Laminar tokens [.node span ts] es := by
  have members {n : SpanTree} (member : n ∈ SpanTree.allNodes [.node span ts]) :
      n = .node span ts ∨ n ∈ SpanTree.allNodes ts := by
    simpa using member
  refine ⟨?_, h.entries, List.pairwise_singleton _ _, ?_, h.listed, ?_⟩
  · intro n member
    rcases members member with rfl | deeper
    · exact covers.within
    · exact h.trees n deeper
  · intro n member
    rcases members member with rfl | deeper
    · constructor
      · intro p part
        exact covers.contains order (h.trees p (SpanTree.mem_allNodes part))
      · exact h.ordered
    · exact h.nested n deeper
  · intro n member e entry
    rcases members member with rfl | deeper
    · exact .inr (covers.contains order (h.entries e entry))
    · exact h.clear n deeper e entry

/-- A dropped statement goes without its trees, but not without what was dropped inside it. -/
theorem drop {entry : Skipped} (order : InOrder (tokens ++ more))
    (covers : entry.span.Over (tokens ++ more))
    (h : Laminar tokens ts es) : Laminar (tokens ++ more) [] (es ++ [entry]) := by
  refine ⟨by simp, ?_, .nil, by simp, ?_, by simp⟩
  · intro e member
    rcases List.mem_append.mp member with deeper | same
    · exact (h.entries e deeper).left
    · rw [List.mem_singleton.mp same]
      exact covers.within
  · apply List.pairwise_append.mpr
    refine ⟨h.listed, List.pairwise_singleton _ _, ?_⟩
    intro a deeper b same
    rw [List.mem_singleton.mp same]
    exact .inr (covers.contains order (h.entries a deeper).left)

end Laminar

/-- What is read off sound pieces nests. -/
theorem Piece.Sound.laminar {rest : List Token} {ps : List Piece} (h : Sound rest ps)
    (order : InOrder (leaves ps)) : Laminar (leaves ps) (trees ps) (entries ps) := by
  induction h with
  | nil => exact .nil
  | @token _ t _ _ _ ih =>
      have order : InOrder ([t] ++ _) := order
      exact Laminar.nil.append order (ih order.right)
  | @line _ first value _ _ _ _ _ _ _ ih =>
      have order : InOrder ((first :: value) ++ _) := order
      exact Laminar.nil.append order (ih order.right)
  | node covers _ _ inside later =>
      rw [leaves_node] at order
      exact ((inside order.left).node order.left covers).append order (later order.right)
  | dropped covers _ _ _ inside later =>
      rw [leaves_dropped] at order
      exact ((inside order.left.left).drop order.left covers).append order (later order.right)

/-- The spans of what was parsed, as a whole. -/
structure WellSpanned (source : String) (out : ParseOutput) : Prop where
  placed : ∀ n ∈ out.program.spans.nodes, n.span.Placed source
  nested : ∀ n ∈ out.program.spans.nodes, n.Nested
  dropped : ∀ e ∈ out.skipped, e.span.Placed source
  sorted : out.skipped.Pairwise fun a b => a.span.stop.offset ≤ b.span.stop.offset
  laminar : out.skipped.Pairwise fun a b => a.span.Apart b.span ∨ a.span.Contains b.span ∨
    b.span.Contains a.span
  clear : ∀ n ∈ out.program.spans.nodes, ∀ e ∈ out.skipped, n.span.Apart e.span ∨
    n.span.Contains e.span

theorem Scanned.placed {source : String} {front : List Token} {last : Token}
    (h : Scanned source front last) : (Span.mk .start last.stop).Placed source := by
  refine ⟨Nat.zero_le _, Nat.le_of_eq h.size, ?_, ?_⟩
  · exact Position.ofOffset_after (List.nil_append source.toList).symm
  · rw [h.stop]
    exact Position.ofOffset_after (List.append_nil source.toList).symm

/-- A span over tokens of a script lies within it, at the places of its offsets. -/
theorem LaidOut.placed {source : String} {front : List Token} {last : Token} {out : ParseOutput}
    {ps : List Piece}
    (laid : LaidOut front last out ps) (scanned : Scanned source front last) {span : Span}
    (within : span.Within (Piece.leaves ps)) : span.Placed source := by
  have ordered := within.ordered (laid.inOrder scanned)
  obtain ⟨x, hx, y, hy, start, stop⟩ := within.edges
  have inFront {t : Token} (member : t ∈ Piece.leaves ps) : t ∈ front := by
    rw [laid.leaves] at member
    exact (List.mem_filter.mp member).1
  have first := scanned.tiled.placed (inFront hx)
  have final := scanned.tiled.placed (inFront hy)
  constructor
  · exact ordered
  · rw [stop]
    exact final.inside
  · rw [start]
    exact first.start
  · rw [stop]
    exact final.stop

theorem parse_wellSpanned {source : String} {out : ParseOutput} (h : parse source = .ok out) :
    WellSpanned source out := by
  obtain ⟨front, last, ps, scanned, laid⟩ := parse_laidOut h
  have laminar := laid.sound.laminar (laid.inOrder scanned)
  rw [laid.trees, laid.entries] at laminar
  have placed {span : Span} (within : span.Within (leaves ps)) : span.Placed source :=
    laid.placed scanned within
  -- The span of the whole script is no span over tokens: it takes in the blanks at both ends.
  have around {span : Span} (within : span.Within (leaves ps)) :
      out.program.span.Contains span := by
    rw [laid.span]
    constructor
    · exact Nat.zero_le _
    · rw [scanned.size]
      exact (placed within).inside
  have nodes {n : SpanTree} (member : n ∈ out.program.spans.nodes) :
      n = .node out.program.span (out.program.body.map Stmt.spans) ∨
        n ∈ SpanTree.allNodes (out.program.body.map Stmt.spans) := by
    rw [Program.spans, SpanTree.nodes_node, Stmt.bodySpans_eq] at member
    exact List.mem_cons.mp member
  refine ⟨?_, ?_, ?_, ?_, ?_, ?_⟩
  · intro n member
    rcases nodes member with rfl | inside
    · change out.program.span.Placed source
      rw [laid.span]
      exact scanned.placed
    · exact placed (laminar.trees n inside)
  · intro n member
    rcases nodes member with rfl | inside
    · constructor
      · intro p part
        exact around (laminar.trees p (SpanTree.mem_allNodes part))
      · exact laminar.ordered
    · exact laminar.nested n inside
  · intro e member
    exact placed (laminar.entries e member)
  · apply laminar.listed.imp_of_mem
    intro a b _ member behind
    rcases behind with before | contains
    · have ordered := (placed (laminar.entries b member)).ordered
      exact Nat.le_trans before ordered
    · exact contains.2
  · apply laminar.listed.imp
    intro a b behind
    rcases behind with before | contains
    · exact .inl (.inl before)
    · exact .inr (.inr contains)
  · intro n member e entry
    rcases nodes member with rfl | inside
    · exact .inr (around (laminar.entries e entry))
    · exact laminar.clear n inside e entry

/-- A block that is not closed is dropped behind the statement that was dropped inside it. -/
theorem parse_wellSpanned_unclosed : ∃ out, parse "(a) + f(b)\nloop \x7b\n  c := \n" = .ok out ∧
    out.skipped.map (fun e => (e.span.start.offset, e.span.stop.offset)) = [(20, 26), (11, 26)] ∧
    WellSpanned "(a) + f(b)\nloop \x7b\n  c := \n" out := by
  obtain ⟨out, parsed, spans⟩ :=
    ok_of_toOption (show (parse "(a) + f(b)\nloop \x7b\n  c := \n").toOption.map
    (fun out => out.skipped.map fun e => (e.span.start.offset, e.span.stop.offset)) =
    some [(20, 26), (11, 26)] by
      decide +kernel)
  exact ⟨out, parsed, spans, parse_wellSpanned parsed⟩

end ScriptLens
