import ScriptLens.Proofs.Depth.Counter
import ScriptLens.Proofs.Padding.Trees
import ScriptLens.Proofs.Shift.Parsers

/-!
Every rule of the grammar gives back the levels it took, on success, on failure and through
recovery, and stays within the limit on the way. So a statement that was read or dropped leaves
nothing behind in the counter: whether a later one at the same level is accepted depends on the
tokens ahead alone.
-/

namespace ScriptLens

open ParseM ScriptLens.Parser

namespace Parser

/-- The rules of the grammar, each over the rules at the top. -/
inductive GrammarRule : {α : Type} → ParseM α → Prop
  | script : GrammarRule script
  | recovered : GrammarRule (recovered rules)
  | statement : GrammarRule (statement rules)
  | statementsUntil (stop : State → Bool) : GrammarRule (statementsUntil rules stop)
  | block : GrammarRule (block rules)
  | body : GrammarRule (body rules)
  | ifChain : GrammarRule (ifChain rules)
  | alternate : GrammarRule (alternate rules)
  | whileLoop : GrammarRule (whileLoop rules)
  | forLoop : GrammarRule (forLoop rules)
  | loopVariables : GrammarRule loopVariables
  | closeHeader (parenthesized : Bool) : GrammarRule (closeHeader parenthesized)
  | loop : GrammarRule (loop rules)
  | returns : GrammarRule (returns rules)
  | operand? (closing : Kind) : GrammarRule (operand? rules closing)
  | function : GrammarRule (function rules)
  | params : GrammarRule (params rules)
  | param : GrammarRule (param rules)
  | default? : GrammarRule (default? rules)
  | classDecl : GrammarRule (classDecl rules)
  | superClass? : GrammarRule superClass?
  | hotkey : GrammarRule (hotkey rules)
  | hotkeyBody : GrammarRule (hotkeyBody rules)
  | directive : GrammarRule directive
  | expression : GrammarRule (expression rules)
  | assignment : GrammarRule (assignment rules)
  | disjunction : GrammarRule (disjunction rules)
  | conjunction : GrammarRule (conjunction rules)
  | equality : GrammarRule (equality rules)
  | comparison : GrammarRule (comparison rules)
  | term : GrammarRule (term rules)
  | factor : GrammarRule (factor rules)
  | unary : GrammarRule (unary rules)
  | postfixed : GrammarRule (postfixed rules)
  | arguments : GrammarRule (arguments rules)
  | primary : GrammarRule (primary rules)

theorem GrammarRule.made {α : Type} {m : ParseM α} (h : GrammarRule m) : Made true m := by
  cases h with
  | script => exact statementsUntil_built .recovered _
  | recovered => exact recovered_built
  | statement => exact statement_built
  | statementsUntil stop => exact statementsUntil_built .recovered stop
  | block => exact block_built
  | body => exact body_built
  | ifChain => exact ifChain_built
  | alternate => exact alternate_built
  | whileLoop => exact whileLoop_built
  | forLoop => exact forLoop_built
  | loopVariables => exact loopVariables_built
  | closeHeader parenthesized => exact closeHeader_built parenthesized
  | loop => exact loop_built
  | returns => exact returns_built
  | operand? closing => exact (operand?_built closing).any
  | function => exact function_built
  | params => exact params_built.any
  | param => exact param_built.any
  | default? => exact default?_built.any
  | classDecl => exact classDecl_built
  | superClass? => exact superClass?_built
  | hotkey => exact hotkey_built
  | hotkeyBody => exact hotkeyBody_built
  | directive => exact directive_built
  | expression => exact expression_built.any
  | assignment => exact assignment_built.any
  | disjunction => exact disjunction_built.any
  | conjunction => exact conjunction_built.any
  | equality => exact equality_built.any
  | comparison => exact comparison_built.any
  | term => exact term_built.any
  | factor => exact factor_built.any
  | unary => exact unary_built.any
  | postfixed => exact postfixed_built.any
  | arguments => exact arguments_built.any
  | primary => exact primary_built.any

/-- What the counter does over a run of the rule from a state. -/
structure Framed {α : Type} (s : State) (m : ParseM α) : Prop where
  made : Made true m
  restored : (m.run s).2.depth = s.depth
  within : ∀ moment, Comes m s moment → moment.Within s

/-- The second state is behind statements, read or dropped, and line breaks. -/
inductive Follows (s : State) : State → Prop
  | here : Follows s s
  | newlines {t : State} : Follows s t → Follows s t.skipNewlines
  | statement {t : State} : Follows s t → Follows s ((recovered rules).run t).2

theorem Follows.walks {s t : State} (h : Follows s t) : Walk true s t ∧ t.depth = s.depth := by
  induction h with
  | here => exact ⟨.refl, rfl⟩
  | newlines _ before =>
      exact ⟨before.1.trans (State.walk_skipNewlines _),
        (State.skipNewlines_depth _).trans before.2⟩
  | statement _ before =>
      have step := recovered_returns rules_returns
      exact ⟨before.1.trans (step _).1, (step _).2.trans before.2⟩

/-- The statement that comes next is read and not dropped. -/
def Accepts (s : State) : Prop := ∃ stmt t, (recovered rules).run s = (.ok (some stmt), t)

/-- The tokens of a parser: an end mark behind others that are neither comments nor end marks. -/
structure Readable (s : State) : Prop where
  closed : s.Closed
  ahead : ∀ u ∈ s.ahead, u.kind ≠ .comment ∧ u.kind ≠ .eof

theorem Readable.walk {loud : Bool} {s t : State} (h : Readable s)
    (walk : Walk loud s t) : Readable t :=
  ⟨h.closed.walk walk, fun u member => h.ahead u (walk.suffix.subset member)⟩

theorem readable_ofTokens (source : String) (tokens : List Token) :
    Readable (.ofTokens source tokens) := by
  have start := State.cursor_ofTokens source tokens
  have kept : (State.ofTokens source tokens).ahead.Sublist (State.prepare tokens) :=
    (List.takeWhile_prefix _).sublist
  exact ⟨start.final,
    fun u member => ⟨State.prepare_kept (kept.subset member), start.ahead u member⟩⟩

theorem padded_self (source : List Char) (ts : List Token) : Padded source source ts ts := by
  induction ts with
  | nil => exact .done
  | cons t ts ih =>
      by_cases feed : t.kind = .newline
      · exact @Padded.feed source source t t [] ts ts feed feed (by simp) ih
      · exact .token feed rfl rfl rfl ih

theorem isSome_eq_of_rel {α β : Type} {R : α → β → Prop} {a : Option α} {b : Option β}
    (h : Option.Rel R a b) : b.isSome = a.isSome := by
  cases h <;> rfl

theorem accepts_iff {s t : State} {found : Option Stmt}
    (run : (recovered rules).run s = (.ok found, t)) : Accepts s ↔ found.isSome = true := by
  rw [Accepts, run]
  constructor
  · rintro ⟨stmt, u, same⟩
    cases same
    rfl
  · intro some
    obtain ⟨stmt, rfl⟩ := Option.isSome_iff_exists.mp some
    exact ⟨stmt, t, rfl⟩

/-- Whether the next statement is accepted depends on the tokens ahead and on the depth. -/
theorem accepts_congr {s t : State} (readable : Readable s) (closed : t.Closed)
    (ahead : t.ahead = s.ahead) (depth : t.depth = s.depth) : Accepts t ↔ Accepts s := by
  -- by way of a state that differs from the first in the token consumed last, and from the second
  -- in all but that
  obtain ⟨between, chosen⟩ : ∃ between : State, between = { s with last := t.last } := ⟨_, rfl⟩
  have together : InStep s between := by
    rw [chosen]
    exact ⟨padded_self _ _, rfl, readable.closed, ⟨rfl, rfl⟩, rfl⟩
  have moved : Moved ⟨id, id⟩ between t := by
    have still : List.Forall₂ (Token.Shifted ⟨id, id⟩) s.ahead s.ahead :=
      List.forall₂_same.mpr fun u _ =>
        ⟨rfl, fun _ _ => rfl, fun _ => rfl, fun _ _ => rfl, fun _ _ => rfl, rfl, rfl⟩
    rw [chosen]
    exact ⟨ahead ▸ still, readable.ahead, ⟨readable.closed, closed⟩, rfl, depth⟩
  obtain ⟨a, _, here⟩ := recovered_ok rules s
  obtain ⟨b, _, halfway⟩ := recovered_ok rules between
  obtain ⟨c, _, there⟩ := recovered_ok rules t
  have first : b.isSome = a.isSome := by
    have alike := (paddedSides_levelled.rules_alike treeShape_bare).recovered s between together
    rw [here, halfway] at alike
    cases alike with
    | ok result => exact isSome_eq_of_rel result.1
  have second : c.isSome = b.isSome := by
    have alike := (movedSides_levelled.rules_alike treeShape_sketched).recovered between t moved
    rw [halfway, there] at alike
    cases alike with
    | ok result => exact isSome_eq_of_rel result.1
  have accepted : c.isSome = a.isSome := second.trans first
  rw [accepts_iff there, accepts_iff here, accepted]

/-- Rules give back the levels they took however they end, stay within the limit on the way and have
a level to give back whenever they do; so of two scripts read up to the same tokens at the same
level, the next statement is accepted in both or in neither, whatever came before. -/
theorem depth_balanced {s : State} (within : s.depth ≤ maxDepth) :
    (∀ {α : Type} {m : ParseM α}, GrammarRule m → Framed s m) ∧ ∀ s' t t', s'.depth = s.depth →
      Readable s → Readable s' → Follows s t → Follows s' t' → t.depth = s.depth ∧
        (t'.ahead = t.ahead → t'.depth = t.depth ∧ (Accepts t' ↔ Accepts t)) := by
  refine ⟨fun rule => ?_, fun s' t t' level readable readable' behind behind' => ?_⟩
  · have made := rule.made
    exact ⟨made, (rules_returns.of_built made s).2, fun moment comes => comes.within within⟩
  · have walk := behind.walks
    have walk' := behind'.walks
    refine ⟨walk.2, fun ahead => ?_⟩
    have depth : t'.depth = t.depth := by rw [walk.2, walk'.2, level]
    exact ⟨depth, accepts_congr (readable.walk walk.1) (readable'.walk walk'.1).closed ahead depth⟩

/-- An expression in three parentheses and one that fails in its fourth, before the same
statement. -/
theorem depth_balanced_recovered : ∃ s s' t t' : State,
    (s.depth ≤ maxDepth ∧ s'.depth = s.depth ∧ Readable s ∧ Readable s') ∧
    Framed s (recovered rules) ∧
    (Follows s t ∧ t.skipped = []) ∧ (Follows s' t' ∧ t'.skipped ≠ []) ∧
    t'.ahead = t.ahead ∧ t.ahead ≠ [] ∧ Accepts t' ∧ Accepts t := by
  generalize here : State.ofTokens "(((1)))\nx := 1" (scan "(((1)))\nx := 1").tokens = s
  generalize there : State.ofTokens "((((1(]\nx := 1" (scan "((((1(]\nx := 1").tokens = s'
  have within : s.depth ≤ maxDepth := by
    rw [← here]
    exact Nat.zero_le _
  have level : s'.depth = s.depth := by rw [← here, ← there]; rfl
  have readable : Readable s := here ▸ readable_ofTokens _ _
  have readable' : Readable s' := there ▸ readable_ofTokens _ _
  have balanced := depth_balanced within
  have follows : Follows s ((recovered rules).run s).2.skipNewlines := .newlines (.statement .here)
  have follows' : Follows s' ((recovered rules).run s').2.skipNewlines :=
    .newlines (.statement .here)
  have same : ((recovered rules).run s').2.skipNewlines.ahead =
      ((recovered rules).run s).2.skipNewlines.ahead := by
    rw [← here, ← there]
    decide +kernel
  have skipped : ((recovered rules).run s).2.skipNewlines.skipped = [] ∧
      ((recovered rules).run s').2.skipNewlines.skipped ≠ [] ∧
      ((recovered rules).run s).2.skipNewlines.ahead ≠ [] := by
    rw [← here, ← there]
    decide +kernel
  have reads : ((recovered rules).run ((recovered rules).run s).2.skipNewlines).1.toOption.map
      Option.isSome = some true := by
    rw [← here]
    decide +kernel
  have accepts : Accepts ((recovered rules).run s).2.skipNewlines := by
    obtain ⟨found, u, run⟩ := recovered_ok rules ((recovered rules).run s).2.skipNewlines
    rw [run] at reads
    exact (accepts_iff run).mpr (Option.some.inj reads)
  have accepts' :=
    ((balanced.2 s' _ _ level readable readable' follows follows').2 same).2.mpr accepts
  exact ⟨s, s', _, _, ⟨within, level, readable, readable'⟩, balanced.1 .recovered,
    ⟨follows, skipped.1⟩, ⟨follows', skipped.2.1⟩, same, skipped.2.2, accepts', accepts⟩

end Parser

end ScriptLens
