import ScriptLens.Proofs.Parser.Run

/-!
How the rules of the grammar are put together, once for all that is shown of them by it. Two levels
build their rules alike: with the same steps of the parser, around the rules of the level below, and
refusing for the same causes. Whatever the steps keep holds of every rule by induction on how it is
built, and a change of a rule changes one lemma here.
-/

namespace ScriptLens

open ParseM ScriptLens.Parser

/-- What can be wrong with an expression. -/
def Parser.expressionCauses : List ParseCause :=
  [.expected .expression, .expected .propertyName, .expected .closeArguments, .expected .closeGroup,
    .invalidTarget, .nestedTooDeeply, .chainTooLong]

/-- What can be wrong with parameters, the expressions of their defaults included. -/
def Parser.parameterCauses : List ParseCause :=
  .expected .parameterName :: .expected .closeParameters :: expressionCauses

namespace ParseM

/-- Two rules built alike around pairs of given ones. They refuse for allowed causes, and those that
are balanced take links inside chains only; the given ones are balanced. -/
inductive Built (Given : {α : Type} → ParseM α → ParseM α → Prop) (Allowed : ParseCause → Prop) :
    (balanced : Bool) → {α : Type} → ParseM α → ParseM α → Prop
  | given {balanced} {α : Type} {m m' : ParseM α} : Given m m' → Built Given Allowed balanced m m'
  | pure {balanced} {α : Type} (a : α) : Built Given Allowed balanced (pure a) (pure a)
  | get {balanced} : Built Given Allowed balanced get get
  | refuse {balanced} {α : Type} {cause : ParseCause} : Allowed cause →
      Built Given Allowed balanced (refuse cause : ParseM α) (refuse cause)
  | advance {balanced} : Built Given Allowed balanced advance advance
  | skipNewlines {balanced} : Built Given Allowed balanced skipNewlines skipNewlines
  | skipLine {balanced} : Built Given Allowed balanced (modify State.skipLine : ParseM PUnit)
      (modify State.skipLine)
  | bind {balanced} {α β : Type} {m m' : ParseM α} {f f' : α → ParseM β} :
      Built Given Allowed balanced m m' → (∀ a, Built Given Allowed balanced (f a) (f' a)) →
      Built Given Allowed balanced (m >>= f) (m' >>= f')
  | link : Allowed .chainTooLong → Built Given Allowed false link link
  | chain {balanced} {α : Type} {m m' : ParseM α} : Built Given Allowed false m m' →
      Built Given Allowed balanced (chain m) (chain m')
  | repeating {balanced} {α : Type} {step step' : α → ParseM (α × Bool)} (a : α) :
      (∀ a, Built Given Allowed balanced (step a) (step' a)) →
      Built Given Allowed balanced (repeating step a) (repeating step' a)

/-- What rules reach of the level below them. Those that are not loud start and drop no
statements. -/
inductive Beneath (inner inner' : Level) : Bool → {α : Type} → ParseM α → ParseM α → Prop
  | assignment {loud} :
      Beneath inner inner' loud (nested inner.assignment) (nested inner'.assignment)
  | disjunction {loud} :
      Beneath inner inner' loud (nested inner.disjunction) (nested inner'.disjunction)
  | unary {loud} : Beneath inner inner' loud (nested inner.unary) (nested inner'.unary)
  | ifChain : Beneath inner inner' true (nested inner.ifChain) (nested inner'.ifChain)
  | statement : Beneath inner inner' true (nested inner.statement) (nested inner'.statement)
  | recovered : Beneath inner inner' true (recovered inner) (recovered inner')

/-- Two rules built alike over two levels. -/
abbrev BuiltOver (inner inner' : Level) (loud balanced : Bool) {α : Type} (m m' : ParseM α) :
    Prop :=
  Built (Beneath inner inner' loud) (fun _ => True) balanced m m'

/-- Two rules for parts of expressions, built alike over two levels. -/
abbrev BuiltInside (inner inner' : Level) (loud balanced : Bool) {α : Type} (m m' : ParseM α) :
    Prop :=
  Built (Beneath inner inner' loud) (· ∈ expressionCauses) balanced m m'

namespace Built

variable {Given : {α : Type} → ParseM α → ParseM α → Prop} {Allowed More : ParseCause → Prop}
variable {balanced : Bool} {α : Type} {m m' : ParseM α}

theorem weaken (h : Built Given Allowed balanced m m')
    (more : ∀ cause, Allowed cause → More cause) : Built Given More balanced m m' := by
  induction h with
  | given rule => exact .given rule
  | pure a => exact .pure a
  | get => exact .get
  | refuse allowed => exact .refuse (more _ allowed)
  | advance => exact .advance
  | skipNewlines => exact .skipNewlines
  | skipLine => exact .skipLine
  | bind _ _ first rest => exact .bind first rest
  | link allowed => exact .link (more _ allowed)
  | chain _ inside => exact .chain inside
  | repeating a _ steps => exact .repeating a steps

theorem any (h : Built Given Allowed balanced m m') : Built Given (fun _ => True) balanced m m' :=
  h.weaken fun _ _ => trivial

theorem check (kind : Kind) : Built Given Allowed balanced (check kind) (check kind) :=
  .bind .get fun _ => .pure _

theorem eat (kind : Kind) : Built Given Allowed balanced (eat kind) (eat kind) := by
  refine .bind (.check kind) fun found => ?_
  split
  · exact .bind .advance fun _ => .pure _
  · exact .pure _

theorem expect (kind : Kind) {what : Expected} (allowed : Allowed (.expected what)) :
    Built Given Allowed balanced (expect kind what) (expect kind what) := by
  refine .bind (.check kind) fun found => ?_
  split
  · exact .advance
  · exact .refuse allowed

end Built

end ParseM

namespace Parser

section Parts

variable {Given : {α : Type} → ParseM α → ParseM α → Prop} {Allowed : ParseCause → Prop}
variable {balanced : Bool} {α : Type}

theorem itemLink_built {item item' : ParseM α} (h : Built Given Allowed balanced item item')
    (items : List α) :
    Built Given Allowed balanced (itemLink item items) (itemLink item' items) := by
  refine .bind h fun _ => .bind .skipNewlines fun _ => .bind (.eat _) fun comma => ?_
  split
  · exact .bind .skipNewlines fun _ => .pure _
  · exact .pure _

theorem inParens_built {item item' : ParseM α} (h : Built Given Allowed balanced item item')
    {closing : Expected} (allowed : Allowed (.expected closing)) :
    Built Given Allowed balanced (inParens item closing) (inParens item' closing) := by
  have close : ∀ items : List α,
      Built Given Allowed balanced (expect .rParen closing >>= fun _ => pure items.reverse)
        (expect .rParen closing >>= fun _ => pure items.reverse) :=
    fun _ => .bind (.expect _ allowed) fun _ => .pure _
  refine .bind .skipNewlines fun _ => .bind (.check _) fun empty => ?_
  split
  · exact .bind (.pure _) close
  · exact .bind (.repeating [] (itemLink_built h)) close

section Chain

variable {operator? : Kind → Option BinaryOp} {operand operand' : ParseM Expr}
variable (h : Built Given Allowed false operand operand') (long : Allowed .chainTooLong)
include h long

theorem binaryLink_built (left : Expr) : Built Given Allowed false
    (binaryLink operator? operand left) (binaryLink operator? operand' left) := by
  refine .bind .get fun s => ?_
  split
  · exact .pure _
  · exact .bind .advance fun _ => .bind (.link long) fun _ => .bind h fun _ => .pure _

theorem leftChain_built : Built Given Allowed balanced
    (leftChain operator? operand) (leftChain operator? operand') :=
  .chain (.bind h fun left => .repeating left (binaryLink_built h long))

end Chain

theorem variableLink_built (names : List String) :
    Built Given (fun _ => True) balanced (variableLink names) (variableLink names) := by
  refine .bind (.eat _) fun more => ?_
  split
  · exact .bind (.expect _ trivial) fun _ => .pure _
  · exact .pure _

theorem loopVariables_built : Built Given (fun _ => True) balanced loopVariables loopVariables :=
  .bind (.expect _ trivial) fun first =>
    .bind (.repeating [first.text] variableLink_built) fun _ => .pure _

theorem closeHeader_built (parenthesized : Bool) :
    Built Given (fun _ => True) balanced (closeHeader parenthesized)
      (closeHeader parenthesized) := by
  unfold closeHeader
  split
  · exact .bind (.expect _ trivial) fun _ => .pure _
  · exact .pure _

theorem superClass?_built : Built Given (fun _ => True) balanced superClass? superClass? := by
  refine .bind .get fun s => ?_
  dsimp only
  split
  · exact .bind .advance fun _ => .bind (.expect _ trivial) fun _ => .pure _
  · exact .pure _

theorem directive_built : Built Given Allowed balanced directive directive :=
  .bind .advance fun _ => .bind .get fun _ => .bind .skipLine fun _ => .bind .get fun _ => .pure _

variable {inner inner' : Level}

theorem statementLink_built (h : Given (recovered inner) (recovered inner')) (stop : State → Bool)
    (body : List Stmt) : Built Given Allowed balanced
      (statementLink inner stop body) (statementLink inner' stop body) := by
  refine .bind .skipNewlines fun _ => .bind .get fun s => ?_
  split
  · exact .pure _
  · exact .bind (.given h) fun _ => .pure _

theorem statementsUntil_built (h : Given (recovered inner) (recovered inner'))
    (stop : State → Bool) :
    Built Given Allowed balanced (statementsUntil inner stop) (statementsUntil inner' stop) :=
  .bind (.repeating [] (statementLink_built h stop)) fun _ => .pure _

end Parts

section Expressions

variable {inner inner' : Level} {loud balanced : Bool}

theorem expression_built :
    BuiltInside inner inner' loud balanced (expression inner) (expression inner') :=
  .given .assignment

theorem arguments_built :
    BuiltInside inner inner' loud balanced (arguments inner) (arguments inner') :=
  inParens_built expression_built (by decide)

theorem primary_built :
    BuiltInside inner inner' loud balanced (primary inner) (primary inner') := by
  refine .bind .get fun s => ?_
  dsimp only
  split
  case h_8 =>
    exact .bind .advance fun _ => .bind expression_built fun _ =>
      .bind (.expect _ (by decide)) fun _ => .pure _
  case h_9 => exact .refuse (by decide)
  all_goals exact .bind .advance fun _ => .pure _

theorem postfixLink_built (e : Expr) :
    BuiltInside inner inner' loud false (postfixLink inner e) (postfixLink inner' e) := by
  refine .bind (.eat _) fun call => ?_
  split
  · exact .bind (.link (by decide)) fun _ => .bind arguments_built fun _ => .bind .get fun _ =>
      .pure _
  · refine .bind (.eat _) fun member => ?_
    split
    · refine .bind (.link (by decide)) fun _ => .bind .get fun s => ?_
      dsimp only
      split
      · exact .bind .advance fun _ => .pure _
      · exact .refuse (by decide)
    · exact .pure _

theorem postfixed_built :
    BuiltInside inner inner' loud balanced (postfixed inner) (postfixed inner') :=
  .chain (.bind primary_built fun e => .repeating e postfixLink_built)

theorem unary_built : BuiltInside inner inner' loud balanced (unary inner) (unary inner') := by
  refine .bind .get fun s => ?_
  dsimp only
  split
  case h_3 => exact postfixed_built
  all_goals exact .bind .advance fun _ => .bind (.given .unary) fun _ => .pure _

theorem factor_built : BuiltInside inner inner' loud balanced (factor inner) (factor inner') :=
  leftChain_built unary_built (by decide)

theorem term_built : BuiltInside inner inner' loud balanced (term inner) (term inner') :=
  leftChain_built factor_built (by decide)

theorem comparison_built :
    BuiltInside inner inner' loud balanced (comparison inner) (comparison inner') :=
  leftChain_built term_built (by decide)

theorem equality_built :
    BuiltInside inner inner' loud balanced (equality inner) (equality inner') :=
  leftChain_built comparison_built (by decide)

theorem conjunction_built :
    BuiltInside inner inner' loud balanced (conjunction inner) (conjunction inner') :=
  leftChain_built equality_built (by decide)

theorem disjunction_built :
    BuiltInside inner inner' loud balanced (disjunction inner) (disjunction inner') :=
  leftChain_built conjunction_built (by decide)

theorem assignment_built :
    BuiltInside inner inner' loud balanced (assignment inner) (assignment inner') := by
  refine .bind disjunction_built fun target => .bind (.check _) fun assigned => ?_
  split
  · split
    · exact .bind .advance fun _ => .bind (.given .assignment) fun _ => .pure _
    · exact .refuse (by decide)
  · exact .pure _

theorem operand?_built (closing : Kind) :
    BuiltInside inner inner' loud balanced (operand? inner closing) (operand? inner' closing) := by
  refine .bind .get fun s => ?_
  split
  · exact .pure _
  · exact .bind expression_built fun _ => .pure _

theorem default?_built :
    BuiltInside inner inner' loud balanced (default? inner) (default? inner') := by
  refine .bind (.eat _) fun assigned => ?_
  split
  · exact .bind (.given .disjunction) fun _ => .pure _
  · exact .pure _

theorem param_built : Built (Beneath inner inner' loud) (· ∈ parameterCauses) balanced
    (param inner) (param inner') := by
  have expressions : ∀ cause ∈ expressionCauses, cause ∈ parameterCauses := by decide
  exact .bind .get fun _ => .bind (.eat _) fun _ => .bind (.expect _ (by decide)) fun _ =>
    .bind (.eat _) fun _ => .bind (default?_built.weaken expressions) fun _ => .bind .get fun _ =>
      .pure _

theorem params_built : Built (Beneath inner inner' loud) (· ∈ parameterCauses) balanced
    (params inner) (params inner') :=
  inParens_built param_built (by decide)

end Expressions

section Statements

variable {inner inner' : Level} {balanced : Bool}

theorem recovered_built :
    BuiltOver inner inner' true balanced (recovered inner) (recovered inner') :=
  .given .recovered

theorem block_built : BuiltOver inner inner' true balanced (block inner) (block inner') :=
  .bind (.expect _ trivial) fun _ => .bind (statementsUntil_built .recovered _) fun _ =>
    .bind (.expect _ trivial) fun _ => .pure _

theorem body_built : BuiltOver inner inner' true balanced (body inner) (body inner') := by
  refine .bind .get fun s => ?_
  split
  · exact .bind .skipNewlines fun _ => block_built
  · exact statementsUntil_built .recovered _

theorem alternate_built :
    BuiltOver inner inner' true balanced (alternate inner) (alternate inner') := by
  refine .bind .get fun s => ?_
  split
  · exact .bind .skipNewlines fun _ => .bind (.given .ifChain) fun _ => .pure _
  · refine .bind .get fun s => ?_
    split
    · refine .bind .skipNewlines fun _ => .bind .advance fun _ => .bind (.check _) fun chained => ?_
      split
      · exact .bind (.given .ifChain) fun _ => .pure _
      · exact .bind body_built fun _ => .pure _
    · exact .pure _

theorem ifChain_built : BuiltOver inner inner' true balanced (ifChain inner) (ifChain inner') :=
  .bind .advance fun _ => .bind expression_built.any fun _ => .bind body_built fun _ =>
    .bind alternate_built fun _ => .bind .get fun _ => .pure _

theorem whileLoop_built :
    BuiltOver inner inner' true balanced (whileLoop inner) (whileLoop inner') :=
  .bind .advance fun _ => .bind expression_built.any fun _ => .bind body_built fun _ =>
    .bind .get fun _ => .pure _

theorem forLoop_built : BuiltOver inner inner' true balanced (forLoop inner) (forLoop inner') :=
  .bind .advance fun _ => .bind (.eat _) fun _ => .bind loopVariables_built fun _ =>
    .bind (.expect _ trivial) fun _ => .bind expression_built.any fun _ =>
      .bind (closeHeader_built _) fun _ => .bind body_built fun _ => .bind .get fun _ => .pure _

theorem loop_built : BuiltOver inner inner' true balanced (loop inner) (loop inner') :=
  .bind .advance fun _ => .bind (operand?_built _).any fun _ => .bind body_built fun _ =>
    .bind .get fun _ => .pure _

theorem returns_built : BuiltOver inner inner' true balanced (returns inner) (returns inner') :=
  .bind .advance fun _ => .bind (operand?_built _).any fun _ => .bind .get fun _ => .pure _

theorem function_built : BuiltOver inner inner' true balanced (function inner) (function inner') :=
  .bind .get fun _ => .bind (.eat _) fun _ => .bind (.expect _ trivial) fun _ =>
    .bind (.expect _ trivial) fun _ => .bind params_built.any fun _ => .bind .skipNewlines fun _ =>
      .bind block_built fun _ => .bind .get fun _ => .pure _

theorem classDecl_built :
    BuiltOver inner inner' true balanced (classDecl inner) (classDecl inner') :=
  .bind .advance fun _ => .bind (.expect _ trivial) fun _ => .bind superClass?_built fun _ =>
    .bind .skipNewlines fun _ => .bind block_built fun _ => .bind .get fun _ => .pure _

theorem hotkeyBody_built :
    BuiltOver inner inner' true balanced (hotkeyBody inner) (hotkeyBody inner') := by
  refine .bind .get fun s => ?_
  split
  · exact .bind .skipNewlines fun _ => block_built
  · split
    · exact statementsUntil_built .recovered _
    · exact .bind recovered_built fun _ => .pure _

theorem hotkey_built : BuiltOver inner inner' true balanced (hotkey inner) (hotkey inner') :=
  .bind .advance fun _ => .bind hotkeyBody_built fun _ => .bind .get fun _ => .pure _

theorem statement_built :
    BuiltOver inner inner' true balanced (statement inner) (statement inner') := by
  refine .bind .get fun s => ?_
  split
  case h_1 => exact .bind ifChain_built fun _ => .pure _
  case h_2 => exact whileLoop_built
  case h_3 => exact forLoop_built
  case h_4 => exact loop_built
  case h_5 => exact classDecl_built
  case h_6 => exact returns_built
  case h_7 => exact .bind .advance fun _ => .pure _
  case h_8 => exact .bind .advance fun _ => .pure _
  case h_9 => exact hotkey_built
  case h_10 => exact directive_built
  case h_11 =>
    split
    · exact function_built
    · exact .bind expression_built.any fun _ => .pure _

end Statements

end Parser

end ScriptLens
