import ScriptLens.Proofs.Print.Trees
import ScriptLens.Report

/-!
What a tree holds, counted by the syntax: declarations, `if`s with their further links and loops, at
every depth. Main statement: the measures of a script, which are taken along the walk over all
lists, are these counts.
-/

namespace ScriptLens

/-- What the measures of a script count. -/
inductive Construct where
  | function | classDecl | ifs | elseIf | loop
deriving DecidableEq

namespace Stmt

mutual

/-- The constructs in a list of statements at every depth, each as often as it stands there. -/
def constructs : List Stmt → List Construct
  | [] => []
  | s :: rest => constructsOf s ++ constructs rest

def constructsOf : Stmt → List Construct
  | ifs chain => .ifs :: constructsOfChain chain
  | whileLoop _ body _ => .loop :: constructs body
  | forLoop _ _ body _ => .loop :: constructs body
  | loop _ body _ => .loop :: constructs body
  | classDecl _ _ _ body _ => .classDecl :: constructs body
  | function _ _ _ body _ _ => .function :: constructs body
  | hotkey _ body _ => constructs body
  | returns .. | breaks _ | continues _ | directive .. | expression .. => []

def constructsOfChain : IfChain → List Construct
  | .mk _ consequent rest _ => constructs consequent ++ constructsOfAlternate rest

def constructsOfAlternate : Alternate → List Construct
  | .absent => []
  | .elseIf next => .elseIf :: constructsOfChain next
  | .otherwise body => constructs body

end

/-- The further links of a chain. -/
def moreLinks : IfChain → List Construct
  | .mk _ _ rest _ => List.replicate (IfChain.alternateLinks rest) .elseIf

/-- What a statement is by itself. -/
def own : Stmt → List Construct
  | ifs chain => .ifs :: moreLinks chain
  | whileLoop .. | forLoop .. | loop .. => [.loop]
  | classDecl .. => [.classDecl]
  | function .. => [.function]
  | hotkey .. | returns .. | breaks _ | continues _ | directive .. | expression .. => []

/-- How often a construct stands in some lists, the lists inside their statements aside. -/
def ownCount (c : Construct) (lists : List (List Stmt)) : Nat := (lists.flatten.flatMap own).count c

section Counts

variable {c : Construct} {body : List Stmt}

@[simp] theorem ownCount_cons (body : List Stmt) (lists : List (List Stmt)) :
    ownCount c (body :: lists) = (body.flatMap own).count c + ownCount c lists := by
  simp [ownCount]

@[simp] theorem ownCount_append (a b : List (List Stmt)) :
    ownCount c (a ++ b) = ownCount c a + ownCount c b := by
  simp [ownCount]

/-- A statement is itself and what stands inside it. -/
def Counted (c : Construct) (s : Stmt) : Prop :=
  (constructsOf s).count c = (own s).count c + ownCount c (listsOf s)

theorem count_of_each (each : ∀ s ∈ body, Counted c s) :
    (constructs body).count c = ownCount c (lists body) := by
  induction body with
  | nil => rfl
  | cons s rest ih =>
      obtain ⟨first, later⟩ := List.forall_mem_cons.mp each
      rw [constructs, List.count_append, first, ih later]
      simp only [lists, listsInside, ownCount_cons, ownCount_append, List.flatMap_cons,
        List.count_append]
      omega

theorem counted (c : Construct) (s : Stmt) : Counted c s := by
  have headed {kind : Construct} {body : List Stmt} (each : ∀ s ∈ body, Counted c s) :
      (kind :: constructs body).count c = [kind].count c + ownCount c (lists body) := by
    rw [← count_of_each each, ← List.count_append, List.singleton_append]
  refine tree_induction (Counted c) (fun chain => (constructsOfChain chain).count c =
    (moreLinks chain).count c + ownCount c (listsOfChain chain))
    (fun rest => (constructsOfAlternate rest).count c =
      (List.replicate (IfChain.alternateLinks rest) Construct.elseIf).count c +
      ownCount c (listsOfAlternate rest)) ?ifs ?whileLoop ?forLoop ?loop ?classDecl ?function
    ?returns ?breaks ?continues ?hotkey ?directive ?expression ?link ?absent ?elseIf ?otherwise s
  case ifs =>
    intro chain ih
    rw [Counted, constructsOf, own, listsOf, List.count_cons, List.count_cons, ih]
    omega
  case link =>
    intro test consequent rest span each later
    rw [constructsOfChain, listsOfChain, moreLinks, List.count_append, count_of_each each, later,
      ownCount_append]
    exact Nat.add_left_comm _ _ _
  case elseIf =>
    rintro ⟨test, consequent, rest, span⟩ ih
    rw [constructsOfAlternate, listsOfAlternate, IfChain.alternateLinks, IfChain.links,
      Nat.add_comm 1, List.replicate_succ, List.count_cons, List.count_cons, ih, moreLinks]
    omega
  case otherwise =>
    intro body each
    rw [constructsOfAlternate, listsOfAlternate, count_of_each each]
    exact (Nat.zero_add _).symm
  case absent => rfl
  case hotkey =>
    intro trigger body span each
    rw [Counted, constructsOf, count_of_each each]
    exact (Nat.zero_add _).symm
  case whileLoop => exact fun _ _ _ each => headed each
  case forLoop => exact fun _ _ _ _ each => headed each
  case loop => exact fun _ _ _ each => headed each
  case classDecl => exact fun _ _ _ _ _ each => headed each
  case function => exact fun _ _ _ _ _ _ each => headed each
  all_goals
    intros
    rfl

/-- The walk over all lists of a tree meets every construct of it once. -/
theorem count_constructs (c : Construct) (body : List Stmt) :
    (constructs body).count c = ownCount c (lists body) :=
  count_of_each fun s _ => counted c s

end Counts

end Stmt

namespace Statistics

open Stmt (own constructs)

theorem countP_own {p : Stmt → Bool} {c : Construct} (fits : ∀ s, (own s).count c = (p s).toNat)
    (stmts : List Stmt) : stmts.countP p = (stmts.flatMap own).count c := by
  induction stmts with
  | nil => rfl
  | cons s rest ih =>
      rw [List.countP_cons, List.flatMap_cons, List.count_append, ih, fits, Nat.add_comm]
      cases p s <;> rfl

theorem count_own_function (s : Stmt) : (own s).count .function = (isFunction s).toNat := by
  cases s with
  | ifs chain =>
      obtain ⟨test, consequent, rest, span⟩ := chain
      simp [own, Stmt.moreLinks, isFunction, List.count_replicate]
  | _ => rfl

theorem count_own_classDecl (s : Stmt) : (own s).count .classDecl = (isClass s).toNat := by
  cases s with
  | ifs chain =>
      obtain ⟨test, consequent, rest, span⟩ := chain
      simp [own, Stmt.moreLinks, isClass, List.count_replicate]
  | _ => rfl

/-- What constructs add to the complexity. -/
def burden (parts : List Construct) : Nat :=
  parts.count .function + parts.count .classDecl + (parts.count .ifs + parts.count .elseIf) + 2 *
    parts.count .loop

theorem burden_append (a b : List Construct) : burden (a ++ b) = burden a + burden b := by
  simp only [burden, List.count_append]
  omega

theorem weight_eq (s : Stmt) : weight s = burden (own s) := by
  cases s with
  | ifs chain =>
      obtain ⟨test, consequent, rest, span⟩ := chain
      simp [own, Stmt.moreLinks, weight, IfChain.links, burden, List.count_replicate]
  | _ => rfl

theorem foldl_weight (stmts : List Stmt) (n : Nat) :
    stmts.foldl (fun n s => n + weight s) n = n + burden (stmts.flatMap own) := by
  induction stmts generalizing n with
  | nil => rfl
  | cons s rest ih =>
      rw [List.foldl_cons, ih, weight_eq, List.flatMap_cons, burden_append, Nat.add_assoc]

/-- The measures of a tree are sums over its syntax. -/
theorem collect_constructs (source : String) (tokens : List Token) (program : Program) :
    (collect source tokens program).functions = (constructs program.body).count .function ∧
    (collect source tokens program).classes = (constructs program.body).count .classDecl ∧
    (collect source tokens program).complexity = 1 + burden (constructs program.body) := by
  refine ⟨?_, ?_, ?_⟩
  · rw [Stmt.count_constructs]
    exact countP_own count_own_function _
  · rw [Stmt.count_constructs]
    exact countP_own count_own_classDecl _
  · unfold burden
    simp only [Stmt.count_constructs]
    exact foldl_weight _ 1

end Statistics

end ScriptLens
