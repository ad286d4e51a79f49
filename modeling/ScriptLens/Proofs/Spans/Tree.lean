import ScriptLens.Syntax.Basic
import ScriptLens.Proofs.Text.Cut

/-!
The spans of a script as a tree: every node that carries a span, with the nodes written inside it in
the order in which they are written.
-/

namespace ScriptLens

/-- A span and the spans of the parts of what it covers. -/
inductive SpanTree where
  | node (span : Span) (parts : List SpanTree)

namespace SpanTree

def span : SpanTree → Span
  | node span _ => span

def parts : SpanTree → List SpanTree
  | node _ parts => parts

mutual

/-- A tree and all trees inside it. -/
def nodes : SpanTree → List SpanTree
  | node span parts => node span parts :: allNodes parts

def allNodes : List SpanTree → List SpanTree
  | [] => []
  | t :: rest => nodes t ++ allNodes rest

end

@[simp] theorem allNodes_nil : allNodes [] = [] := by rw [allNodes]

@[simp] theorem allNodes_cons (t : SpanTree) (rest : List SpanTree) :
    allNodes (t :: rest) = t.nodes ++ allNodes rest := by rw [allNodes]

@[simp] theorem allNodes_append (a b : List SpanTree) :
    allNodes (a ++ b) = allNodes a ++ allNodes b := by
  induction a with
  | nil => rfl
  | cons t a ih => rw [List.cons_append, allNodes_cons, allNodes_cons, ih, List.append_assoc]

@[simp] theorem nodes_node (span : Span) (parts : List SpanTree) :
    (node span parts).nodes = node span parts :: allNodes parts := by rw [nodes]

theorem mem_allNodes {t : SpanTree} {ts : List SpanTree} (member : t ∈ ts) : t ∈ allNodes ts := by
  induction ts with
  | nil => cases member
  | cons first rest ih =>
      rw [allNodes_cons]
      rcases List.mem_cons.mp member with rfl | later
      · obtain ⟨span, parts⟩ := t
        rw [nodes_node]
        exact List.mem_append_left _ List.mem_cons_self
      · exact List.mem_append_right _ (ih later)

end SpanTree

namespace Expr

mutual

/-- The spans of an expression; parentheses that only group have none. -/
def spans : Expr → SpanTree
  | assignment target value span => .node span [target.spans, value.spans]
  | binary _ left right span => .node span [left.spans, right.spans]
  | unary _ argument span => .node span [argument.spans]
  | call callee arguments span => .node span (callee.spans :: allSpans arguments)
  | member object _ span => .node span [object.spans]
  | literal _ _ span => .node span []
  | name _ _ span => .node span []

def allSpans : List Expr → List SpanTree
  | [] => []
  | e :: rest => e.spans :: allSpans rest

end

theorem allSpans_eq (es : List Expr) : allSpans es = es.map spans := by
  induction es with
  | nil => rw [allSpans, List.map_nil]
  | cons e es ih => rw [allSpans, ih, List.map_cons]

end Expr

/-- The spans of an expression that may be missing. -/
def Expr.optionalSpans (e : Option Expr) : List SpanTree := e.toList.map Expr.spans

/-- A parameter with its default. -/
def Param.spans (p : Param) : SpanTree := .node p.span (Expr.optionalSpans p.default)

namespace Stmt

mutual

/-- The spans of a statement: its name, its parameters, its expressions and its bodies. -/
def spans : Stmt → SpanTree
  | ifs chain => chainSpans chain
  | whileLoop test body span => .node span (test.spans :: bodySpans body)
  | forLoop _ iterable body span => .node span (iterable.spans :: bodySpans body)
  | loop count body span => .node span (Expr.optionalSpans count ++ bodySpans body)
  | classDecl _ nameSpan _ body span => .node span (.node nameSpan [] :: bodySpans body)
  | function _ nameSpan params body _ span =>
    .node span (.node nameSpan [] :: (params.map Param.spans ++ bodySpans body))
  | returns argument span => .node span (Expr.optionalSpans argument)
  | breaks span => .node span []
  | continues span => .node span []
  | hotkey _ body span => .node span (bodySpans body)
  | directive _ _ span => .node span []
  | expression e span => .node span [e.spans]

def chainSpans : IfChain → SpanTree
  | .mk test consequent alternate span =>
    .node span (test.spans :: (bodySpans consequent ++ alternateSpans alternate))

def alternateSpans : Alternate → List SpanTree
  | .absent => []
  | .elseIf next => [chainSpans next]
  | .otherwise body => bodySpans body

def bodySpans : List Stmt → List SpanTree
  | [] => []
  | s :: rest => spans s :: bodySpans rest

end

theorem bodySpans_eq (body : List Stmt) : bodySpans body = body.map spans := by
  induction body with
  | nil => rw [bodySpans, List.map_nil]
  | cons s body ih => rw [bodySpans, ih, List.map_cons]

end Stmt

/-- The spans of a whole script. -/
def Program.spans (p : Program) : SpanTree := .node p.span (Stmt.bodySpans p.body)

theorem Stmt.spans_span (s : Stmt) : s.spans.span = s.span := by
  cases s with
  | ifs chain =>
      obtain ⟨test, consequent, alternate, span⟩ := chain
      rw [Stmt.spans, Stmt.chainSpans]
      rfl
  | _ =>
      rw [Stmt.spans]
      rfl

namespace Span

/-- One span ends before another one starts. -/
def Before (a b : Span) : Prop := a.stop.offset ≤ b.start.offset

def Apart (a b : Span) : Prop := a.Before b ∨ b.Before a

def Contains (outer inner : Span) : Prop :=
  outer.start.offset ≤ inner.start.offset ∧ inner.stop.offset ≤ outer.stop.offset

/-- A span within a script whose lines and columns are those of its offsets. -/
structure Placed (source : String) (s : Span) : Prop where
  ordered : s.start.offset ≤ s.stop.offset
  inside : s.stop.offset ≤ source.utf8ByteSize
  start : Position.ofOffset source s.start.offset = s.start
  stop : Position.ofOffset source s.stop.offset = s.stop

end Span

namespace Position

theorem walk_offset {text rest : List Char} (p : Position) :
    walk (p.offset + Text.byteLength text) p (text ++ rest) = p.after text := by
  induction text generalizing p with
  | nil =>
      cases rest with
      | nil => rfl
      | cons c rest => simp [walk]
  | cons c text ih =>
      have positive := c.utf8Size_pos
      have next := ih (p.next c)
      rw [next_offset, Nat.add_assoc] at next
      rw [List.cons_append, walk, if_pos (by rw [Text.byteLength_cons]; omega),
        Text.byteLength_cons, next, after_cons]

/-- The place behind the first characters of a script is the place of its offset. -/
theorem ofOffset_after {source : String} {text rest : List Char}
    (h : source.toList = text ++ rest) :
    ofOffset source (start.after text).offset = start.after text := by
  have reached := @walk_offset text rest start
  have size : Text.byteLength source.toList = Text.byteLength text + Text.byteLength rest := by
    rw [h, Text.byteLength_append]
  rw [Text.byteLength_toList] at size
  have within : min (start.after text).offset source.utf8ByteSize = (start.after text).offset := by
    rw [after_offset, start_offset]
    omega
  rw [ofOffset, h, within]
  rw [← after_offset] at reached
  rw [reached]

end Position

end ScriptLens
