import ScriptLens.Proofs.Lockstep.Statements

/-!
A parser beside itself. It keeps in step with itself, so what holds of every layer of a tree holds
of all statements that it gives: a property of trees is a relation that looks at one side alone.
-/

namespace ScriptLens

open ParseM ScriptLens.Parser

namespace Parser

variable {α : Type} {Q Q' : State → Prop} {good : α → Prop} {m : ParseM α}

/-- What the rule gives from a state with a property is good. -/
def Ensures (Q : State → Prop) (m : ParseM α) (good : α → Prop) : Prop :=
  ∀ s a t, Q s → m.run s = (.ok a, t) → good a

theorem ensures_refuse (cause : ParseCause) : Ensures Q (refuse cause) good := by
  intro s a t _ run
  cases run

theorem Ensures.nested (inside : Ensures Q' m good)
    (enter : ∀ s, Q s → s.depth < maxDepth → Q' { s with depth := s.depth + 1 }) :
    Ensures Q (nested m) good := by
  intro s a t here run
  obtain ⟨below, u, run', _⟩ := run_nested_eq_ok run
  exact inside _ a u (enter s here below) run'

/-- A state with the property, before a token of a tree. -/
def AtToken (Q : State → Prop) (s : State) : Prop := Q s ∧ s.peek.kind.isSolid = true

/-- A property of states that parsers keep where they give back their levels. -/
structure Stable (Q : State → Prop) : Prop where
  closed {s : State} : Q s → s.Closed
  walk {s t : State} : Q s → Walk true s t → t.depth = s.depth → Q t

/-- The same parser on both sides. -/
def alone (Q : State → Prop) : Sides where
  Here s t := t = s ∧ Q s
  Late s t := t = s ∧ Q s
  Tokens a b := b = a
  Spans _ _ := True
  Lines _ _ := True
  Fails _ _ _ _ := True

namespace Stable

variable (stable : Stable Q)
include stable

theorem same {s t : State} (here : (alone Q).Here s t) {f : State → State}
    (walk : Walk true s (f s)) (depth : (f s).depth = s.depth) : (alone Q).Here (f s) (f t) := by
  obtain ⟨rfl, here⟩ := here
  exact ⟨rfl, stable.walk here walk depth⟩

theorem lockstep : Lockstep (alone Q) where
  late := id
  closed := by
    rintro s _ ⟨rfl, here⟩
    exact ⟨stable.closed here, stable.closed here⟩
  skipNewlines {s _} here := stable.same here s.walk_skipNewlines s.skipNewlines_depth
  kind here := by rw [here.1]
  atEnd here := by rw [here.1]
  atFunction here := by rw [here.1]
  token here _ := by rw [here.1]; rfl
  advance {s _} here _ := stable.same here s.walk_advance s.advance_depth
  last _ _ := trivial
  lineText _ := trivial
  skipLine {s _} here := stable.same here (State.walk_consumeAll _ s) (State.consumeAll_depth _ s)
  spanFrom _ _ := trivial
  span _ := trivial
  text same _ := by rw [same]
  refuse _ _ := trivial

/-- What a rule gives is in a relation with itself. -/
theorem gives (returns : Returns true m) {R : α → α → Prop} {s t : State}
    (here : (alone Q).Here s t) (related : ∀ a u, m.run s = (.ok a, u) → R a a) :
    (alone Q).Gives ((alone Q).Both R) (m.run s) (m.run t) := by
  obtain ⟨rfl, here⟩ := here
  have walk := returns t
  generalize run : m.run t = outcome at walk
  obtain ⟨result, u⟩ := outcome
  cases result with
  | ok a => exact .ok ⟨related a u run, rfl, stable.walk here walk.1 walk.2⟩
  | error e => exact .failed trivial

variable {P : Parts} {inner : Level}

/-- The rules one level down give good parts. -/
theorem below (returns : inner.Returns) (tallies : inner.Tallies)
    (expression : Ensures Q (expression inner) fun e => P.Exprs e e)
    (disjunction : Ensures Q (nested inner.disjunction) fun e => P.Exprs e e)
    (ifChain : Ensures (AtToken Q) (nested inner.ifChain) fun c => P.Chains c c)
    (statement : Ensures Q (nested inner.statement) fun s => P.Stmts s s) :
    P.Below (alone Q) inner where
  expression s _ here := stable.gives (expression_returns returns).loud here fun e t =>
    expression s e t here.2
  disjunction s _ here := stable.gives returns.disjunction.nested.loud here fun e t =>
    disjunction s e t here.2
  ifChain {s _} here solid := stable.gives returns.ifChain.nested here fun c t =>
    ifChain s c t ⟨here.2, solid⟩
  recovered s _ here := stable.gives (recovered_returns returns) here fun found t run => by
    cases found with
    | none => exact .none
    | some stmt =>
        have begun : Q s.begin := stable.walk here.2 (.single .begin) rfl
        exact .some (statement s.begin stmt t begun (run_recovered_eq_some run))
  returns := returns
  tallies := tallies

end Stable

theorem Sides.Gives.related {R : α → α → Prop} {s t : State} {a : α}
    (gives : (alone Q).Gives ((alone Q).Both R) (m.run s) (m.run s))
    (run : m.run s = (.ok a, t)) : R a a := by
  rw [run] at gives
  cases gives with
  | ok both => exact both.1

namespace Stable

variable (stable : Stable Q) {P : Parts} {inner : Level} (below : P.Below (alone Q) inner)
include stable below

theorem ensures_ifChain :
    Ensures (AtToken Q) (ifChain inner) fun c => P.Chain (alone Q) c c :=
  fun _ _ _ here => (stable.lockstep.ifChain_gives below ⟨rfl, here.1⟩ here.2).related

theorem ensures_statement : Ensures Q (statement inner) fun s => P.Layer (alone Q) s s :=
  fun s _ _ here => (stable.lockstep.statement_alike below s s ⟨rfl, here⟩).related

theorem ensures_statementsUntil {stop : State → Bool}
    (ends : ∀ s, s.atEnd = true → stop s = true) :
    Ensures Q (statementsUntil inner stop) fun body => List.Forall₂ P.Stmts body body := by
  have steady : (alone Q).Steady stop := by
    rintro s _ ⟨rfl, _⟩
    rfl
  exact fun s _ _ here =>
    (stable.lockstep.statementsUntil_alike below steady ends s s ⟨rfl, here⟩).related

end Stable

/-- A relation that looks at one side alone. -/
theorem forall_of_forall₂ {β : Type} {as : List α} {bs : List β}
    (h : List.Forall₂ (fun a _ => good a) as bs) : ∀ a ∈ as, good a := by
  induction h with
  | nil => exact List.forall_mem_nil good
  | cons here _ ih => exact List.forall_mem_cons.mpr ⟨here, ih⟩

theorem forall_of_rel {β : Type} {a : Option α} {b : Option β}
    (h : Option.Rel (fun a _ => good a) a b) : ∀ x ∈ a, good x := by
  cases h with
  | none => exact nofun
  | some here =>
      rintro _ ⟨⟩
      exact here

end Parser

end ScriptLens
