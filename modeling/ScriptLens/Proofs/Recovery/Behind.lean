import ScriptLens.Parser.Stmt
import ScriptLens.Proofs.Print.Trees
import ScriptLens.Proofs.Scan.Lines

/-!
Syntax trees, errors and dropped statements moved behind whole lines. Moving changes the places
only; it commutes with everything the parser computes from them.
-/

namespace ScriptLens

def Span.behind (lines : List Char) (s : Span) : Span := ⟨s.start.behind lines, s.stop.behind lines⟩

theorem Span.behind_behind (a b : List Char) (s : Span) :
    (s.behind b).behind a = s.behind (a ++ b) := by
  simp only [behind, Position.behind_behind]

theorem Span.cover_behind (lines : List Char) (a b : Span) :
    (a.behind lines).cover (b.behind lines) = (a.cover b).behind lines := by
  simp only [cover, behind, Position.behind, Nat.add_lt_add_iff_right, gt_iff_lt]
  congr 1
  · split <;> rfl
  · split <;> rfl

@[simp] theorem Token.behind_span (lines : List Char) (t : Token) :
    (t.behind lines).span = t.span.behind lines :=
  rfl

theorem Token.behind_behind (a b : List Char) (t : Token) :
    (t.behind b).behind a = t.behind (a ++ b) := by
  simp only [behind, Position.behind_behind]

namespace Expr

mutual

/-- The expression with every span changed. -/
def mapSpan (f : Span → Span) : Expr → Expr
  | assignment target value s => assignment (target.mapSpan f) (value.mapSpan f) (f s)
  | binary operator left right s => binary operator (left.mapSpan f) (right.mapSpan f) (f s)
  | unary operator argument s => unary operator (argument.mapSpan f) (f s)
  | call callee arguments s => call (callee.mapSpan f) (mapSpans f arguments) (f s)
  | member object property s => member (object.mapSpan f) property (f s)
  | literal value raw s => literal value raw (f s)
  | name n builtin s => name n builtin (f s)

def mapSpans (f : Span → Span) : List Expr → List Expr
  | [] => []
  | e :: rest => e.mapSpan f :: mapSpans f rest

end

variable (f g : Span → Span)

theorem mapSpans_eq (es : List Expr) : mapSpans f es = es.map (mapSpan f) := by
  induction es with
  | nil => simp [mapSpans]
  | cons e es ih => simp [mapSpans, ih]

@[simp] theorem span_mapSpan (e : Expr) : (e.mapSpan f).span = f e.span := by
  cases e <;> simp [mapSpan, span]

@[simp] theorem isTarget_mapSpan (e : Expr) : (e.mapSpan f).isTarget = e.isTarget := by
  cases e <;> simp [mapSpan, isTarget]

theorem mapSpan_mapSpan (e : Expr) : (e.mapSpan g).mapSpan f = e.mapSpan (f ∘ g) := by
  induction e using Expr.tree_induction with
  | call callee arguments span ihc iha =>
      simp only [mapSpan, mapSpans_eq, List.map_map, ihc, call.injEq, true_and,
        Function.comp_apply, and_true]
      exact List.map_congr_left iha
  | _ => simp_all [mapSpan]

def behind (lines : List Char) (e : Expr) : Expr := e.mapSpan (Span.behind lines)

variable (lines : List Char)

@[simp] theorem behind_span (e : Expr) : (e.behind lines).span = e.span.behind lines :=
  span_mapSpan _ e

@[simp] theorem behind_isTarget (e : Expr) : (e.behind lines).isTarget = e.isTarget :=
  isTarget_mapSpan _ e

theorem behind_call (callee : Expr) (arguments : List Expr) (s : Span) :
    (call callee arguments s).behind lines =
      call (callee.behind lines) (arguments.map (behind lines)) (s.behind lines) := by
  rw [behind, mapSpan, mapSpans_eq]
  rfl

end Expr

namespace Param

def mapSpan (f : Span → Span) (p : Param) : Param :=
  { p with default := p.default.map (Expr.mapSpan f), span := f p.span }

theorem mapSpan_mapSpan (f g : Span → Span) (p : Param) :
    (p.mapSpan g).mapSpan f = p.mapSpan (f ∘ g) := by
  simp only [mapSpan, Option.map_map, Function.comp_apply]
  congr 2
  funext e
  exact Expr.mapSpan_mapSpan f g e

end Param

namespace Stmt

mutual

/-- The statement with every span changed. -/
def mapSpan (f : Span → Span) : Stmt → Stmt
  | ifs chain => ifs (mapSpanChain f chain)
  | whileLoop test body s => whileLoop (test.mapSpan f) (mapSpans f body) (f s)
  | forLoop names iterable body s => forLoop names (iterable.mapSpan f) (mapSpans f body) (f s)
  | loop count body s => loop (count.map (Expr.mapSpan f)) (mapSpans f body) (f s)
  | classDecl name nameSpan superClass body s => classDecl name (f nameSpan) superClass
      (mapSpans f body) (f s)
  | function name nameSpan params body isStatic s =>
    function name (f nameSpan) (params.map (Param.mapSpan f)) (mapSpans f body) isStatic (f s)
  | returns argument s => returns (argument.map (Expr.mapSpan f)) (f s)
  | breaks s => breaks (f s)
  | continues s => continues (f s)
  | hotkey trigger body s => hotkey trigger (mapSpans f body) (f s)
  | directive name value s => directive name value (f s)
  | expression e s => expression (e.mapSpan f) (f s)

def mapSpanChain (f : Span → Span) : IfChain → IfChain
  | .mk test consequent alternate s =>
    .mk (test.mapSpan f) (mapSpans f consequent) (mapSpanAlternate f alternate) (f s)

def mapSpanAlternate (f : Span → Span) : Alternate → Alternate
  | .absent => .absent
  | .elseIf next => .elseIf (mapSpanChain f next)
  | .otherwise body => .otherwise (mapSpans f body)

def mapSpans (f : Span → Span) : List Stmt → List Stmt
  | [] => []
  | s :: rest => s.mapSpan f :: mapSpans f rest

end

end Stmt

namespace Stmt

variable (f g : Span → Span)

theorem mapSpans_eq (body : List Stmt) : mapSpans f body = body.map (mapSpan f) := by
  induction body with
  | nil => simp [mapSpans]
  | cons s body ih => simp [mapSpans, ih]

theorem mapSpans_mapSpans {body : List Stmt}
    (h : ∀ s ∈ body, (s.mapSpan g).mapSpan f = s.mapSpan (f ∘ g)) :
    mapSpans f (mapSpans g body) = mapSpans (f ∘ g) body := by
  simp only [mapSpans_eq, List.map_map]
  exact List.map_congr_left h

theorem mapSpan_mapSpan (s : Stmt) : (s.mapSpan g).mapSpan f = s.mapSpan (f ∘ g) := by
  have expr : Expr.mapSpan f ∘ Expr.mapSpan g = Expr.mapSpan (f ∘ g) :=
    funext (Expr.mapSpan_mapSpan f g)
  have param : Param.mapSpan f ∘ Param.mapSpan g = Param.mapSpan (f ∘ g) :=
    funext (Param.mapSpan_mapSpan f g)
  refine tree_induction (fun s => (s.mapSpan g).mapSpan f = s.mapSpan (f ∘ g))
    (fun chain => mapSpanChain f (mapSpanChain g chain) = mapSpanChain (f ∘ g) chain)
    (fun rest => mapSpanAlternate f (mapSpanAlternate g rest) = mapSpanAlternate (f ∘ g) rest)
    ?_ ?_ ?_ ?_ ?_ ?_ ?_ ?_ ?_ ?_ ?_ ?_ ?_ ?_ ?_ ?_ s
  case refine_1 =>
    intro chain ih
    simp only [mapSpan, ih]
  case refine_13 =>
    intro test consequent rest span all ih
    simp only [mapSpanChain, mapSpans_mapSpans f g all, ih, Expr.mapSpan_mapSpan,
      Function.comp_apply]
  case refine_15 =>
    intro next ih
    simp only [mapSpanAlternate, ih]
  case refine_16 =>
    intro body all
    simp only [mapSpanAlternate, mapSpans_mapSpans f g all]
  all_goals
    intros
    simp_all only [mapSpan, mapSpanAlternate, mapSpans_mapSpans, Expr.mapSpan_mapSpan,
      Option.map_map, List.map_map, Function.comp_apply, implies_true]

def behind (lines : List Char) (s : Stmt) : Stmt := s.mapSpan (Span.behind lines)

theorem behind_behind (a b : List Char) (s : Stmt) : (s.behind b).behind a = s.behind (a ++ b) := by
  have moved : Span.behind a ∘ Span.behind b = Span.behind (a ++ b) :=
    funext (Span.behind_behind a b)
  rw [behind, behind, mapSpan_mapSpan, moved]
  rfl

end Stmt

def ParseError.behind (lines : List Char) (e : ParseError) : ParseError :=
  { e with found := e.found.behind lines }

def Skipped.behind (lines : List Char) (entry : Skipped) : Skipped :=
  ⟨entry.span.behind lines, entry.error.behind lines⟩

theorem Skipped.behind_behind (a b : List Char) (entry : Skipped) :
    (entry.behind b).behind a = entry.behind (a ++ b) := by
  simp only [behind, ParseError.behind, Span.behind_behind, Token.behind_behind]

end ScriptLens
