import ScriptLens.Proofs.Print.Trees
import ScriptLens.Syntax.Walk

/-!
Heights of trees. A leaf has height one and every other node one more than the tallest part of it;
the link of a chain of conditions is a part of the link before it.
-/

namespace ScriptLens

namespace Expr

mutual

def height : Expr → Nat
  | assignment target value _ => 1 + max target.height value.height
  | binary _ left right _ => 1 + max left.height right.height
  | unary _ argument _ => 1 + argument.height
  | call callee arguments _ => 1 + max callee.height (listedHeight arguments)
  | member object _ _ => 1 + object.height
  | literal .. | name .. => 1

/-- The tallest of some expressions. -/
def listedHeight : List Expr → Nat
  | [] => 0
  | e :: rest => max e.height (listedHeight rest)

end

theorem listedHeight_le {es : List Expr} {n : Nat} : listedHeight es ≤ n ↔ ∀ e ∈ es,
    e.height ≤ n := by
  induction es with
  | nil => simp [listedHeight]
  | cons e es ih => rw [listedHeight, Nat.max_le, ih, List.forall_mem_cons]

/-- Spans do not count. -/
theorem height_bare (e : Expr) : e.bare.height = e.height := by
  induction e using tree_induction with
  | assignment target value span iht ihv => simp only [bare, height, iht, ihv]
  | binary operator left right span ihl ihr => simp only [bare, height, ihl, ihr]
  | unary operator argument span ih => simp only [bare, height, ih]
  | call callee arguments span ihc iha =>
      have listed : listedHeight (allBare arguments) = listedHeight arguments := by
        clear ihc
        induction arguments with
        | nil => rfl
        | cons a arguments ih =>
            rw [allBare, listedHeight, listedHeight, iha a List.mem_cons_self,
              ih fun b member => iha b (List.mem_cons_of_mem a member)]
      simp only [bare, height, ihc, listed]
  | member object property span ih => simp only [bare, height, ih]
  | literal value raw span => simp only [bare, height]
  | name n builtin span => simp only [bare, height]

end Expr

namespace Stmt

/-- The height of an expression that may be missing. -/
def optionalHeight (e : Option Expr) : Nat := (e.map Expr.height).getD 0

/-- The tallest default of some parameters. -/
def paramsHeight (params : List Param) : Nat :=
  (params.map fun p => optionalHeight p.default).foldr max 0

mutual

def height : Stmt → Nat
  | ifs chain => chainHeight chain
  | whileLoop test body _ => 1 + max test.height (bodyHeight body)
  | forLoop _ iterable body _ => 1 + max iterable.height (bodyHeight body)
  | loop count body _ => 1 + max (optionalHeight count) (bodyHeight body)
  | classDecl _ _ _ body _ => 1 + bodyHeight body
  | function _ _ params body _ _ => 1 + max (paramsHeight params) (bodyHeight body)
  | returns argument _ => 1 + optionalHeight argument
  | breaks _ | continues _ | directive .. => 1
  | hotkey _ body _ => 1 + bodyHeight body
  | expression e _ => 1 + e.height

def chainHeight : IfChain → Nat
  | .mk test consequent alternate _ =>
    1 + max test.height (max (bodyHeight consequent) (alternateHeight alternate))

def alternateHeight : Alternate → Nat
  | .absent => 0
  | .elseIf next => chainHeight next
  | .otherwise body => bodyHeight body

/-- The tallest of some statements. -/
def bodyHeight : List Stmt → Nat
  | [] => 0
  | s :: rest => max s.height (bodyHeight rest)

end

theorem bodyHeight_le {body : List Stmt} {n : Nat} : bodyHeight body ≤ n ↔ ∀ s ∈ body,
    s.height ≤ n := by
  induction body with
  | nil => simp [bodyHeight]
  | cons s body ih => rw [bodyHeight, Nat.max_le, ih, List.forall_mem_cons]

/-- No statement in some lists is taller than `n`. -/
def AllWithin (n : Nat) (lists : List (List Stmt)) : Prop :=
  ∀ list ∈ lists, ∀ s ∈ list, s.height ≤ n

theorem AllWithin.mono {m n : Nat} {lists : List (List Stmt)} (h : AllWithin m lists) (le : m ≤ n) :
    AllWithin n lists :=
  fun list member s inside => Nat.le_trans (h list member s inside) le

theorem AllWithin.append {n : Nat} {a b : List (List Stmt)} (ha : AllWithin n a)
    (hb : AllWithin n b) : AllWithin n (a ++ b) := by
  intro list member
  rcases List.mem_append.mp member with first | second
  · exact ha list first
  · exact hb list second

/-- The statements at every depth of a body, where those inside each statement of it are known. -/
theorem allWithin_lists {body : List Stmt} {n : Nat} (le : bodyHeight body ≤ n)
    (inside : ∀ s ∈ body, AllWithin s.height (listsOf s)) : AllWithin n (lists body) := by
  have below : AllWithin n (listsInside body) := by
    induction body with
    | nil =>
        intro list member
        cases member
    | cons s body ih =>
        rw [bodyHeight, Nat.max_le] at le
        rw [listsInside]
        exact ((inside s List.mem_cons_self).mono le.1).append
          (ih le.2 fun t member => inside t (List.mem_cons_of_mem s member))
  intro list member
  rcases List.mem_cons.mp member with rfl | deeper
  · exact bodyHeight_le.mp le
  · exact below list deeper

/-- No statement inside another one is taller. -/
theorem allWithin_listsOf (s : Stmt) : AllWithin s.height (listsOf s) := by
  have none : ∀ n, AllWithin n [] := by
    intro n list member
    cases member
  refine tree_induction (fun s => AllWithin s.height (listsOf s))
    (fun chain => AllWithin (chainHeight chain) (listsOfChain chain))
    (fun rest => AllWithin (alternateHeight rest) (listsOfAlternate rest)) ?ifs ?whileLoop
    ?forLoop ?loop ?classDecl ?function ?returns ?breaks ?continues ?hotkey ?directive ?expression
    ?mk ?absent ?elseIf ?otherwise s
  case ifs => exact fun chain h => by rw [height, listsOf]; exact h
  case mk =>
    intro test consequent rest span all behind
    rw [chainHeight, listsOfChain]
    exact (allWithin_lists (by omega) all).append (behind.mono (by omega))
  case absent => exact none 0
  case elseIf => exact fun next h => by rw [alternateHeight, listsOfAlternate]; exact h
  case otherwise =>
    intro body all
    rw [alternateHeight, listsOfAlternate]
    exact allWithin_lists (Nat.le_refl _) all
  all_goals intros
  all_goals rw [height, listsOf]
  all_goals first | exact none _ | exact allWithin_lists (by omega) ‹_›

end Stmt

end ScriptLens
