import Mathlib.Order.Bounds.Defs
import ScriptLens.Proofs.Depth.Reach
import ScriptLens.Proofs.Print.RoundTrip

/-!
The tallest statement that the parser returns. No script gives a taller one, and there is a script
that gives it: an operand in parentheses within seven chains, each as long as the levels left allow,
and the same again around the parentheses.
-/

namespace ScriptLens

open ParseM ScriptLens.Parser

def leaf : Expr := .name "a" false default

/-- An expression with member accesses behind it. -/
def accessed (e : Expr) : Nat → Expr
  | 0 => e
  | n + 1 => .member (accessed e n) "a" default

/-- An expression with operands joined to it from the right. -/
def joined (operator : BinaryOp) (e : Expr) : Nat → Expr
  | 0 => e
  | n + 1 => .binary operator (joined operator e n) leaf default

theorem accessed_height (e : Expr) (n : Nat) : (accessed e n).height = e.height + n := by
  induction n with
  | zero => rfl
  | succ n ih =>
      rw [accessed, Expr.height, ih]
      omega

theorem accessed_wellFormed {e : Expr} (wf : e.wellFormed = true) (n : Nat) :
    (accessed e n).wellFormed = true := by
  induction n with
  | zero => exact wf
  | succ n ih =>
      have name : isName "a" = true := rfl
      rw [accessed, Expr.wellFormed, ih, name]
      rfl

theorem accessed_cost {e : Expr} (other : e.level ≠ 8) (n : Nat) :
    (accessed e n).costAt 8 = max (e.costAt 8) n ∧ (accessed e n).linksAt 8 = n := by
  induction n with
  | zero =>
      refine ⟨(Nat.max_zero _).symm, ?_⟩
      rw [accessed, Expr.linksAt, if_neg other]
  | succ n ih =>
      have tight : 8 ≤ (accessed e (n + 1)).level := Nat.le_refl 8
      constructor
      · have cost : (accessed e (n + 1)).cost =
            max ((accessed e n).costAt 8) ((accessed e n).linksAt 8 + 1) := by
          rw [accessed, Expr.cost]
          rfl
        rw [Expr.costAt_of_le tight, cost, ih.1, ih.2]
        omega
      · have links : (accessed e (n + 1)).linksAt 8 = (accessed e n).linksAt 8 + 1 := rfl
        rw [links, ih.2]

theorem one_le_height (e : Expr) : 1 ≤ e.height := by
  cases e <;> simp [Expr.height]

theorem joined_height (operator : BinaryOp) (e : Expr) (n : Nat) :
    (joined operator e n).height = e.height + n := by
  induction n with
  | zero => rfl
  | succ n ih =>
      have first := one_le_height e
      have last : leaf.height = 1 := rfl
      rw [joined, Expr.height, ih, last]
      omega

theorem joined_wellFormed (operator : BinaryOp) {e : Expr} (wf : e.wellFormed = true) (n : Nat) :
    (joined operator e n).wellFormed = true := by
  induction n with
  | zero => exact wf
  | succ n ih =>
      have last : leaf.wellFormed = true := rfl
      rw [joined, Expr.wellFormed, ih, last]
      rfl

/-- A chain as long as the levels that its first operand takes needs no more of them, if the operand
is of a tighter level. -/
theorem joined_cost {operator : BinaryOp} {e : Expr} {n : Nat} (tighter : operator.level < e.level)
    (first : e.cost = n) :
    (joined operator e n).cost = n ∧ operator.level ≤ (joined operator e n).level := by
  have chain : ∀ n, (joined operator e n).linksAt operator.level = n ∧
      operator.level ≤ (joined operator e n).level ∧ (joined operator e n).cost = max e.cost n := by
    intro n
    induction n with
    | zero =>
        refine ⟨?_, Nat.le_of_lt tighter, (Nat.max_zero _).symm⟩
        rw [joined, Expr.linksAt, if_neg (by omega)]
    | succ n ih =>
        obtain ⟨links, level, cost⟩ := ih
        refine ⟨?_, Nat.le_refl _, ?_⟩
        · have more : (joined operator e (n + 1)).linksAt operator.level =
              (joined operator e n).linksAt operator.level + 1 := by
            rw [joined, Expr.linksAt, Expr.level, if_pos rfl, Expr.links]
            rfl
          rw [more, links]
        · have leafless : Expr.groupedCost (leaf.level < operator.level + 1) leaf.cost = 0 := by
            have bounds := operator.level_bounds
            have high : leaf.level = 9 := rfl
            rw [high, decide_eq_false (by omega)]
            rfl
          have whole :
              (joined operator e (n + 1)).cost = max ((joined operator e n).costAt operator.level)
              ((joined operator e n).linksAt operator.level + (1 + 0)) := by
            rw [joined, Expr.cost, leafless]
            rfl
          rw [whole, Expr.costAt_of_le level, cost, links]
          omega
  obtain ⟨_, level, cost⟩ := chain n
  rw [first, Nat.max_self] at cost
  exact ⟨cost, level⟩

/-- Chains of operators around an expression, one around the other. -/
def chained (n : Nat) (operators : List BinaryOp) (e : Expr) : Expr :=
  operators.foldl (fun e operator => joined operator e n) e

theorem chained_wellFormed (n : Nat) (operators : List BinaryOp) {e : Expr}
    (wf : e.wellFormed = true) : (chained n operators e).wellFormed = true := by
  induction operators generalizing e with
  | nil => exact wf
  | cons operator operators ih => exact ih (joined_wellFormed operator wf n)

theorem chained_height (n : Nat) (operators : List BinaryOp) (e : Expr) :
    (chained n operators e).height = e.height + operators.length * n := by
  induction operators generalizing e with
  | nil => simp [chained]
  | cons operator operators ih =>
      have step :
        chained n (operator :: operators) e = chained n operators (joined operator e n) := rfl
      rw [step, ih, joined_height, List.length_cons, Nat.succ_mul]
      omega

theorem chained_cost {n : Nat} {operators : List BinaryOp}
    (sorted : operators.Pairwise fun a b => b.level < a.level)
    {e : Expr} (tighter : ∀ operator ∈ operators, operator.level < e.level) (first : e.cost = n) :
    (chained n operators e).cost = n := by
  induction operators generalizing e with
  | nil => exact first
  | cons operator operators ih =>
      obtain ⟨below, sorted⟩ := List.pairwise_cons.mp sorted
      obtain ⟨cost, level⟩ := joined_cost (tighter operator List.mem_cons_self) first
      exact ih sorted (fun next member => Nat.lt_of_lt_of_le (below next member) level) cost

/-- The operators of the six chains, the tightest first. -/
def chains : List BinaryOp := [.multiply, .add, .less, .equal, .and, .or]

/-- The tallest expression that takes so many levels. -/
def tallest : Nat → Expr
  | 0 => leaf
  | b + 1 => chained (b + 1) chains (accessed (tallest b) (b + 1))

theorem tallest_wellFormed (b : Nat) : (tallest b).wellFormed = true := by
  induction b with
  | zero => rfl
  | succ b ih => exact chained_wellFormed (b + 1) chains (accessed_wellFormed ih (b + 1))

theorem tallest_height (b : Nat) : (tallest b).height = reach (b + 1) := by
  induction b with
  | zero => rfl
  | succ b ih =>
      have six : chains.length = 6 := rfl
      have step : reach (b + 1 + 1) = reach (b + 1) + 7 * (b + 1) := rfl
      rw [tallest, chained_height, accessed_height, ih, six]
      omega

theorem tallest_cost (b : Nat) : (tallest b).cost = b ∧ (tallest b).level ≠ 8 := by
  induction b with
  | zero => exact ⟨rfl, by decide⟩
  | succ b ih =>
      have tight : 8 ≤ (accessed (tallest b) (b + 1)).level := Nat.le_refl 8
      have inner : (accessed (tallest b) (b + 1)).cost = b + 1 := by
        have outer : (tallest b).costAt 8 ≤ b + 1 := by
          rw [Expr.costAt, Expr.groupedCost, ih.1]
          split <;> omega
        rw [← Expr.costAt_of_le tight, (accessed_cost ih.2 (b + 1)).1]
        omega
      have looser : ∀ operator ∈ chains, operator.level < 8 := by decide
      have sorted : chains.Pairwise fun a b => b.level < a.level := by decide
      have level : (tallest (b + 1)).level = 1 := rfl
      refine ⟨chained_cost sorted
        (fun operator member => Nat.lt_of_lt_of_le (looser operator member) tight) inner, ?_⟩
      rw [level]
      decide

/-- Heights of statements, at every depth, that the parser returns for some script. -/
def parsedHeights : Set Nat :=
  { h | ∃ source out body s, parse source = .ok out ∧ body ∈ Stmt.lists out.program.body ∧
    s ∈ body ∧ s.height = h }

/-- No statement of a script is taller than the levels of the depth counter allow. -/
theorem height_le_of_parse {source : String} {out : ParseOutput} (h : parse source = .ok out) :
    Stmt.AllWithin (storey maxDepth) (Stmt.lists out.program.body) := by
  rw [parse] at h
  cases scanned : tokenize source with
  | error e =>
      rw [scanned] at h
      cases h
  | ok tokens =>
      rw [scanned] at h
      cases h
      have closed := (State.cursor_ofTokens source tokens).final
      obtain ⟨body, final, run, _⟩ := script_ok closed
      have start : LevelsLeft maxDepth (State.ofTokens source tokens) :=
        ⟨closed, Nat.zero_add _⟩
      have within := (stable_levelsLeft maxDepth).ensures_statementsUntil
        (rules_below fun c _ => rules_reaches c) (fun _ => id) _ body final start run
      have height := Stmt.bodyHeight_le.mpr (forall_of_forall₂ within)
      change Stmt.AllWithin _ (Stmt.lists (parseTokens source tokens).program.body)
      rw [(parseTokens_of_run run).1]
      exact Stmt.allWithin_lists height fun s _ => Stmt.allWithin_listsOf s

theorem bare_expression {s : Stmt} {e : Expr} {span : Span} (h : s.bare = .expression e span) :
    ∃ e' span', s = .expression e' span' ∧ e'.bare = e := by
  cases s with
  | expression e' span' =>
      rw [Stmt.bare] at h
      exact ⟨e', span', rfl, (Stmt.expression.inj h).1⟩
  | _ =>
      rw [Stmt.bare] at h
      cases h

/-- An expression that leaves room for the statement around it is read back at its height. -/
theorem parse_ofExpr {e : Expr} (wf : e.wellFormed = true) (fits : e.cost + 2 ≤ maxDepth) :
    ∃ out e' span, parse (Program.ofExpr e).print = .ok out ∧
    out.program.body = [.expression e' span] ∧ e'.height = e.height := by
  obtain ⟨tokens, final, scanned, eof, spells, kinds⟩ :=
    tokenize_print (Program.ofExpr_wellFormed wf)
  rcases parseTokens_spelled (Program.ofExpr_wellFormed wf) spells eof kinds with
    ⟨_, _, same⟩ | ⟨exceeds, _⟩
  · obtain ⟨s, body, bare⟩ := List.map_eq_singleton_iff.mp same
    rw [Stmt.bare] at bare
    obtain ⟨e', span, rfl, same'⟩ := bare_expression bare
    refine ⟨parseTokens (Program.ofExpr e).print (tokens ++ [final]), e', span, ?_, body, ?_⟩
    · rw [parse, scanned]
      rfl
    · rw [← Expr.height_bare e', same', Expr.height_bare]
  · rw [Program.ofExpr_cost] at exceeds
    omega

/-- A sum of seventy-one terms, the first of them a product of seventy-one factors, is of height 142
and takes seventy-two levels of the depth counter. -/
theorem not_allWithin_maxDepth : ¬ ∀ source out, parse source = .ok out →
    Stmt.AllWithin maxDepth (Stmt.lists out.program.body) := by
  intro within
  have wf : (chained 70 [.multiply, .add] leaf).wellFormed = true :=
    chained_wellFormed 70 _ (by decide +kernel)
  have fits : (chained 70 [.multiply, .add] leaf).cost + 2 ≤ maxDepth := by decide +kernel
  obtain ⟨out, e, span, read, body, height⟩ := parse_ofExpr wf fits
  have tall : (Stmt.expression e span).height = 142 := by
    rw [Stmt.height, height, chained_height]
    rfl
  have member : Stmt.expression e span ∈ out.program.body := by
    rw [body]
    exact List.mem_cons_self
  have bound := within _ out read out.program.body List.mem_cons_self _ member
  rw [tall] at bound
  exact absurd bound (by decide)

/-- The depth counter lets statements of height 56009 through, more than 437 times its limit, and
none that are taller. -/
theorem parsedHeights_greatest : IsGreatest parsedHeights 56009 := by
  have twice := two_mul_reach 126
  have greatest : reach (126 + 1) = 56008 := by omega
  have top : storey maxDepth = 56009 := by rw [maxDepth, storey, room, greatest]
  constructor
  · have fits : (tallest 126).cost + 2 ≤ maxDepth := by
      rw [(tallest_cost 126).1]
      decide
    obtain ⟨out, e, span, read, body, height⟩ := parse_ofExpr (tallest_wellFormed 126) fits
    refine ⟨_, out, out.program.body, .expression e span, read, List.mem_cons_self, ?_, ?_⟩
    · rw [body]
      exact List.mem_cons_self
    · rw [Stmt.height, height, tallest_height, greatest]
  · rintro h ⟨source, out, body, s, read, member, inside, rfl⟩
    rw [← top]
    exact height_le_of_parse read body member s inside

/-- The limits that hold of every statement of every script. -/
theorem allWithin_parse_iff (n : Nat) :
    (∀ source out, parse source = .ok out → Stmt.AllWithin n (Stmt.lists out.program.body)) ↔
    56009 ≤ n := by
  constructor
  · intro within
    obtain ⟨source, out, body, s, read, member, inside, height⟩ := parsedHeights_greatest.1
    rw [← height]
    exact within source out read body member s inside
  · intro room source out read body member s inside
    have bound : s.height ≤ 56009 :=
      parsedHeights_greatest.2 ⟨source, out, body, s, read, member, inside, rfl⟩
    exact bound.trans room

end ScriptLens
