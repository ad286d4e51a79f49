import ScriptLens.Proofs.Parser.Built
import ScriptLens.Proofs.Parser.Steps

/-!
Every rule of the grammar walks by guarded steps and gives back the levels it took. Expressions walk
quietly: no statement starts or is dropped inside one.
-/

namespace ScriptLens

open ParseM ScriptLens.Parser

/-- All rules of a level give back the levels they take. -/
structure Level.Returns (inner : Level) : Prop where
  assignment : ParseM.Returns false inner.assignment
  disjunction : ParseM.Returns false inner.disjunction
  unary : ParseM.Returns false inner.unary
  ifChain : ParseM.Returns true inner.ifChain
  statement : ParseM.Returns true inner.statement

namespace ParseM

variable {α : Type} {Allowed : ParseCause → Prop} {loud balanced : Bool} {m m' : ParseM α}

theorem returns_skipLine {b : Bool} : Returns b (modify State.skipLine : ParseM PUnit) :=
  fun s => ⟨State.walk_consumeAll _ s, State.consumeAll_depth _ s⟩

theorem Returns.of_quiet (h : Returns false m) : Returns loud m := by
  cases loud with
  | false => exact h
  | true => exact h.loud

/-- What is built of rules that give back their levels walks, and gives back its levels if it is
balanced. -/
theorem Built.walks {Given : {α : Type} → ParseM α → ParseM α → Prop}
    (given : ∀ {α : Type} {m m' : ParseM α}, Given m m' → Returns loud m)
    (h : Built Given Allowed balanced m m') :
    Climbs loud m ∧ (balanced = true → Returns loud m) := by
  have both {balanced : Bool} {α : Type} {m : ParseM α} (h : Returns loud m) :
      Climbs loud m ∧ (balanced = true → Returns loud m) := ⟨h.climbs, fun _ => h⟩
  induction h with
  | given rule => exact both (given rule)
  | pure a => exact both (returns_pure a)
  | get => exact both returns_get
  | refuse _ => exact both (returns_refuse _)
  | advance => exact both returns_advance
  | skipNewlines => exact both returns_skipNewlines
  | skipLine => exact both returns_skipLine
  | bind _ _ first rest =>
      exact ⟨first.1.bind fun a => (rest a).1,
        fun all => (first.2 all).bind fun a => (rest a).2 all⟩
  | link _ => exact ⟨climbs_link, nofun⟩
  | chain _ inside => exact both inside.1.chain
  | repeating a _ steps =>
      exact ⟨Climbs.repeating (fun a => (steps a).1) a,
        fun all => Returns.repeating (fun a => (steps a).2 all) a⟩

/-- A rule that gives back its levels, on the left. -/
def Steady (loud : Bool) {α : Type} (m _ : ParseM α) : Prop := Returns loud m

theorem Returns.built (h : Returns loud m) : Built (Steady loud) (fun _ => True) balanced m m :=
  .given h

theorem Built.returns (h : Built (Steady loud) (fun _ => True) true m m) : Returns loud m :=
  (h.walks id).2 rfl

theorem Built.climbs (h : Built (Steady loud) (fun _ => True) balanced m m) : Climbs loud m :=
  (h.walks id).1

end ParseM

namespace Parser

variable {inner : Level}

theorem Returns.recovered (h : Returns true inner.statement) : Returns true (recovered inner) := by
  intro s
  have inside := h.nested s.begin
  rw [run_recovered]
  generalize (nested inner.statement).run s.begin = outcome at inside
  obtain ⟨result, t⟩ := outcome
  have walk : Walk true s t := .head .begin inside.1
  cases result with
  | ok stmt => exact ⟨walk, inside.2⟩
  | error e =>
      exact ⟨walk.trans (t.walk_recover s.peek e), (t.recover_depth s.peek e).trans inside.2⟩

theorem recovered_returns (h : inner.Returns) : Returns true (recovered inner) :=
  Returns.recovered h.statement

end Parser

namespace Level.Returns

variable {α : Type} {inner inner' : Level} {Allowed : ParseCause → Prop} {loud balanced : Bool}
variable {m m' : ParseM α}

theorem beneath (h : inner.Returns) (rule : Beneath inner inner' loud m m') :
    ParseM.Returns loud m := by
  cases rule with
  | assignment => exact h.assignment.nested.of_quiet
  | disjunction => exact h.disjunction.nested.of_quiet
  | unary => exact h.unary.nested.of_quiet
  | ifChain => exact h.ifChain.nested
  | statement => exact h.statement.nested
  | recovered => exact recovered_returns h

theorem of_built (h : inner.Returns) (built : Built (Beneath inner inner loud) Allowed true m m) :
    ParseM.Returns loud m :=
  (built.walks h.beneath).2 rfl

theorem climbs_of_built (h : inner.Returns)
    (built : Built (Beneath inner inner loud) Allowed balanced m m) : Climbs loud m :=
  (built.walks h.beneath).1

end Level.Returns

namespace Parser

section Parts

variable {α : Type} {b : Bool} {item : ParseM α} {operator? : Kind → Option BinaryOp}
  {operand : ParseM Expr}

theorem itemLink_returns (h : Returns b item) (items : List α) : Returns b (itemLink item items) :=
  (itemLink_built h.built items).returns

theorem inParens_returns (h : Returns b item) (closing : Expected) :
    Returns b (inParens item closing) :=
  (inParens_built h.built trivial).returns

theorem binaryLink_climbs (h : Returns false operand) (left : Expr) :
    Climbs false (binaryLink operator? operand left) :=
  (binaryLink_built h.built trivial left).climbs

theorem leftChain_returns (h : Returns false operand) :
    Returns false (leftChain operator? operand) :=
  (leftChain_built h.built trivial).returns

theorem variableLink_returns (names : List String) : Returns false (variableLink names) :=
  (variableLink_built names).returns

theorem loopVariables_returns : Returns false loopVariables := loopVariables_built.returns

theorem closeHeader_returns (parenthesized : Bool) : Returns b (closeHeader parenthesized) :=
  (closeHeader_built parenthesized).returns

theorem superClass?_returns : Returns false superClass? := superClass?_built.returns

end Parts

section Rules

variable {inner : Level}

theorem expression_returns (h : inner.Returns) : Returns false (expression inner) :=
  h.of_built expression_built

theorem postfixLink_climbs (h : inner.Returns) (e : Expr) : Climbs false (postfixLink inner e) :=
  h.climbs_of_built (postfixLink_built e)

theorem unary_returns (h : inner.Returns) : Returns false (unary inner) := h.of_built unary_built

theorem factor_returns (h : inner.Returns) : Returns false (factor inner) := h.of_built factor_built

theorem term_returns (h : inner.Returns) : Returns false (term inner) := h.of_built term_built

theorem comparison_returns (h : inner.Returns) : Returns false (comparison inner) :=
  h.of_built comparison_built

theorem equality_returns (h : inner.Returns) : Returns false (equality inner) :=
  h.of_built equality_built

theorem conjunction_returns (h : inner.Returns) : Returns false (conjunction inner) :=
  h.of_built conjunction_built

theorem operand?_returns (h : inner.Returns) (closing : Kind) :
    Returns false (operand? inner closing) :=
  h.of_built (operand?_built closing)

theorem param_returns (h : inner.Returns) : Returns false (param inner) := h.of_built param_built

theorem statementLink_returns (h : inner.Returns) (stop : State → Bool) (body : List Stmt) :
    Returns true (statementLink inner stop body) :=
  (statementLink_built (recovered_returns h) stop body).returns

theorem statementsUntil_returns (h : inner.Returns) (stop : State → Bool) :
    Returns true (statementsUntil inner stop) :=
  (statementsUntil_built (recovered_returns h) stop).returns

theorem alternate_returns (h : inner.Returns) : Returns true (alternate inner) :=
  h.of_built alternate_built

theorem statement_returns (h : inner.Returns) : Returns true (statement inner) :=
  h.of_built statement_built

theorem layer_returns (h : inner.Returns) : (layer inner).Returns :=
  ⟨h.of_built assignment_built, h.of_built disjunction_built, h.of_built unary_built,
    h.of_built ifChain_built, h.of_built statement_built⟩

theorem tower_returns (levels : Nat) : (tower levels).Returns := by
  induction levels with
  | zero =>
      exact ⟨returns_refuse _, returns_refuse _, returns_refuse _, returns_refuse _,
        returns_refuse _⟩
  | succ levels ih => exact layer_returns ih

theorem rules_returns : rules.Returns := tower_returns _

/-- The kinds of the binary operators. -/
def operatorKinds : List Kind :=
  [.multiply, .divide, .modulo, .plus, .minus, .less, .greater, .lessEqual, .greaterEqual, .equals,
    .notEquals, .kwAnd, .kwOr]

/-- What holds of the rule for operands and is kept by every level of binary operators holds of the
rule for all levels. -/
theorem disjunction_of_operands {P : ParseM Expr → Prop} (operands : P (unary inner))
    (level : ∀ operator? operand, (∀ kind, operator? kind ≠ none → kind ∈ operatorKinds) →
      P operand → P (leftChain operator? operand)) : P (disjunction inner) := by
  have factors : P (factor inner) :=
    level factorOp? _ (fun kind => by cases kind <;> decide) operands
  have terms : P (term inner) := level termOp? _ (fun kind => by cases kind <;> decide) factors
  have comparisons : P (comparison inner) :=
    level comparisonOp? _ (fun kind => by cases kind <;> decide) terms
  have equalities : P (equality inner) :=
    level equalityOp? _ (fun kind => by cases kind <;> decide) comparisons
  have conjunctions : P (conjunction inner) :=
    level andOp? _ (fun kind => by cases kind <;> decide) equalities
  exact level orOp? _ (fun kind => by cases kind <;> decide) conjunctions

end Rules

end Parser

end ScriptLens
