import ScriptLens.Proofs.Lint.Places
import ScriptLens.Proofs.Shift.Places

/-!
Sketches of trees: every span changed, and the texts of strings and directives left out. The
findings about a tree are made from its sketch alone.
-/

namespace ScriptLens

namespace Expr

mutual

/-- The expression with every span changed and without the values of literals. -/
def sketch (f : Span → Span) : Expr → Expr
  | assignment target value s => assignment (target.sketch f) (value.sketch f) (f s)
  | binary operator left right s => binary operator (left.sketch f) (right.sketch f) (f s)
  | unary operator argument s => unary operator (argument.sketch f) (f s)
  | call callee arguments s => call (callee.sketch f) (sketchAll f arguments) (f s)
  | member object property s => member (object.sketch f) property (f s)
  | literal _ _ s => literal .null "" (f s)
  | name n builtin s => name n builtin (f s)

def sketchAll (f : Span → Span) : List Expr → List Expr
  | [] => []
  | e :: rest => e.sketch f :: sketchAll f rest

end

variable (f : Span → Span)

theorem sketchAll_eq (es : List Expr) : sketchAll f es = es.map (sketch f) := by
  induction es with
  | nil => rw [sketchAll, List.map_nil]
  | cons e es ih => rw [sketchAll, ih, List.map_cons]

@[simp] theorem span_sketch (e : Expr) : (e.sketch f).span = f e.span := by
  cases e <;> rw [sketch] <;> rfl

@[simp] theorem isTarget_sketch (e : Expr) : (e.sketch f).isTarget = e.isTarget := by
  cases e <;> rw [sketch] <;> rfl

theorem calledName?_sketch (e : Expr) : (e.sketch f).calledName? = e.calledName?.map fun (n, s) =>
    (n, f s) := by
  cases e with
  | call callee arguments s =>
      rw [sketch]
      cases callee <;> rw [sketch] <;> rfl
  | _ =>
      rw [sketch]
      rfl

end Expr

def Param.sketch (f : Span → Span) (p : Param) : Param :=
  { p with default := p.default.map (Expr.sketch f), span := f p.span }

namespace Stmt

mutual

/-- The statement with every span changed and without the values of literals and directives. -/
def sketch (f : Span → Span) : Stmt → Stmt
  | ifs chain => ifs (sketchChain f chain)
  | whileLoop test body s => whileLoop (test.sketch f) (sketchAll f body) (f s)
  | forLoop names iterable body s => forLoop names (iterable.sketch f) (sketchAll f body) (f s)
  | loop count body s => loop (count.map (Expr.sketch f)) (sketchAll f body) (f s)
  | classDecl name nameSpan superClass body s => classDecl name (f nameSpan) superClass
      (sketchAll f body) (f s)
  | function name nameSpan params body isStatic s =>
    function name (f nameSpan) (params.map (Param.sketch f)) (sketchAll f body) isStatic (f s)
  | returns argument s => returns (argument.map (Expr.sketch f)) (f s)
  | breaks s => breaks (f s)
  | continues s => continues (f s)
  | hotkey trigger body s => hotkey trigger (sketchAll f body) (f s)
  | directive name _ s => directive name "" (f s)
  | expression e s => expression (e.sketch f) (f s)

def sketchChain (f : Span → Span) : IfChain → IfChain
  | .mk test consequent alternate s =>
    .mk (test.sketch f) (sketchAll f consequent) (sketchAlternate f alternate) (f s)

def sketchAlternate (f : Span → Span) : Alternate → Alternate
  | .absent => .absent
  | .elseIf next => .elseIf (sketchChain f next)
  | .otherwise body => .otherwise (sketchAll f body)

def sketchAll (f : Span → Span) : List Stmt → List Stmt
  | [] => []
  | s :: rest => s.sketch f :: sketchAll f rest

end

variable (f : Span → Span)

theorem sketchAll_eq (body : List Stmt) : sketchAll f body = body.map (sketch f) := by
  induction body with
  | nil => rw [sketchAll, List.map_nil]
  | cons s body ih => rw [sketchAll, ih, List.map_cons]

@[simp] theorem span_sketch (s : Stmt) : (s.sketch f).span = f s.span := by
  cases s with
  | ifs chain =>
      obtain ⟨test, consequent, alternate, span⟩ := chain
      rw [sketch, sketchChain]
      rfl
  | _ =>
      rw [sketch]
      rfl

/-- The lists inside sketched statements are the sketched lists. -/
theorem listsInside_sketch {body : List Stmt}
    (h : ∀ s ∈ body, listsOf (s.sketch f) = (listsOf s).map (sketchAll f)) :
    listsInside (sketchAll f body) = (listsInside body).map (sketchAll f) := by
  induction body with
  | nil => rw [sketchAll, listsInside, List.map_nil]
  | cons s body ih =>
      obtain ⟨here, others⟩ := List.forall_mem_cons.mp h
      rw [sketchAll, listsInside, listsInside, here, ih others, List.map_append]

theorem listsOf_sketch (s : Stmt) : listsOf (s.sketch f) = (listsOf s).map (sketchAll f) := by
  refine tree_induction (fun s => listsOf (s.sketch f) = (listsOf s).map (sketchAll f))
    (fun chain => listsOfChain (sketchChain f chain) = (listsOfChain chain).map (sketchAll f))
    (fun rest => listsOfAlternate (sketchAlternate f rest) =
    (listsOfAlternate rest).map (sketchAll f)) ?ifs ?whileLoop ?forLoop ?loop ?classDecl ?function
    ?returns ?breaks ?continues ?hotkey ?directive ?expression ?link ?absent ?elseIf ?otherwise s
  case ifs =>
    intro chain ih
    rw [sketch, listsOf, listsOf, ih]
  case link =>
    intro test consequent rest span ih later
    rw [sketchChain, listsOfChain, listsOfChain, listsInside_sketch f ih, later, List.map_append,
      List.map_cons]
  case absent => rw [sketchAlternate, listsOfAlternate, List.map_nil]
  case elseIf =>
    intro next ih
    rw [sketchAlternate, listsOfAlternate, listsOfAlternate, ih]
  case otherwise =>
    intro body ih
    rw [sketchAlternate, listsOfAlternate, listsOfAlternate, listsInside_sketch f ih, List.map_cons]
  case returns => intros; rw [sketch, listsOf, listsOf, List.map_nil]
  case breaks => intros; rw [sketch, listsOf, listsOf, List.map_nil]
  case continues => intros; rw [sketch, listsOf, listsOf, List.map_nil]
  case directive => intros; rw [sketch, listsOf, listsOf, List.map_nil]
  case expression => intros; rw [sketch, listsOf, listsOf, List.map_nil]
  all_goals
    intros
    rename_i ih
    rw [sketch, listsOf, listsOf, listsInside_sketch f ih, List.map_cons]

theorem lists_sketch (body : List Stmt) :
    lists (body.map (sketch f)) = (lists body).map (List.map (sketch f)) := by
  have all : (sketchAll f : List Stmt → List Stmt) = List.map (sketch f) := funext (sketchAll_eq f)
  have inside := listsInside_sketch f fun s (_ : s ∈ body) => listsOf_sketch f s
  rw [all] at inside
  rw [lists, lists, inside, List.map_cons]

end Stmt

namespace Lint

variable (f : Span → Span)

/-- Findings with every range changed. -/
def moved (found : List Diagnostic) : List Diagnostic :=
  found.map fun d => { d with range := f d.range }

theorem moved_append (a b : List Diagnostic) : moved f (a ++ b) = moved f a ++ moved f b :=
  List.map_append

theorem declaredNames_sketch (body : List Stmt) :
    declaredNames (body.map (Stmt.sketch f)) = declaredNames body := by
  rw [declaredNames, declaredNames, List.filterMap_map]
  congr 1
  funext s
  cases s <;> rw [Function.comp_apply, Stmt.sketch]

theorem rootCall?_sketch (s : Stmt) : rootCall? (s.sketch f) = (rootCall? s).map fun (n, span) =>
    (n, f span) := by
  cases s with
  | expression e span =>
      cases e with
      | assignment target value inner =>
          rw [Stmt.sketch, Expr.sketch]
          exact Expr.calledName?_sketch f value
      | call callee arguments inner =>
          have called := Expr.calledName?_sketch f (.call callee arguments inner)
          rw [Expr.sketch] at called
          rw [Stmt.sketch, Expr.sketch]
          exact called
      | _ =>
          rw [Stmt.sketch, Expr.sketch]
          rfl
  | _ =>
      rw [Stmt.sketch]
      rfl

theorem undefinedCalls_sketch (body : List Stmt) (span span' : Span) :
    undefinedCalls ⟨body.map (Stmt.sketch f), span'⟩ = moved f (undefinedCalls ⟨body, span⟩) := by
  unfold undefinedCalls moved
  dsimp only
  rw [declaredNames_sketch, List.filterMap_map, List.map_filterMap]
  congr 1
  funext s
  rw [Function.comp_apply, rootCall?_sketch]
  cases rootCall? s with
  | none => rfl
  | some call =>
      simp only [Option.map_some, bind, Option.bind_some]
      split <;> rfl

theorem unreachable_sketch (body : List Stmt) :
    unreachable (body.map (Stmt.sketch f)) = moved f (unreachable body) := by
  induction body with
  | nil => rfl
  | cons first rest ih =>
      cases rest with
      | nil => rfl
      | cons second rest =>
          have same : isReturn (first.sketch f) =
            isReturn first := by cases first <;> rw [Stmt.sketch] <;> rfl
          rw [List.map_cons, List.map_cons, unreachable, unreachable, moved_append, ← ih,
            List.map_cons, same, Stmt.span_sketch]
          congr 1
          split <;> rfl

theorem duplicates_sketch (seen : List String) (body : List Stmt) :
    duplicates seen (body.map (Stmt.sketch f)) = moved f (duplicates seen body) := by
  induction body generalizing seen with
  | nil => rfl
  | cons s rest ih =>
      cases s with
      | function name nameSpan params inner isStatic span =>
          rw [List.map_cons, Stmt.sketch, duplicates, duplicates, moved_append, ih]
          congr 1
          split <;> rfl
      | _ =>
          rw [List.map_cons, Stmt.sketch]
          exact ih seen

theorem listFindings_sketch (body : List Stmt) :
    listFindings (body.map (Stmt.sketch f)) = moved f (listFindings body) := by
  rw [listFindings, listFindings, moved_append, unreachable_sketch, duplicates_sketch]

/-- The findings about the statement lists of a sketched tree. -/
theorem lists_findings_sketch (body : List Stmt) :
    (Stmt.lists (body.map (Stmt.sketch f))).flatMap listFindings =
    moved f ((Stmt.lists body).flatMap listFindings) := by
  rw [Stmt.lists_sketch, List.flatMap_map, moved, List.map_flatMap]
  congr 1
  funext inner
  exact listFindings_sketch f inner

end Lint

end ScriptLens
