import ScriptLens.Proofs.Parser.Cursor
import ScriptLens.Proofs.Parser.Tower

/-!
The depth counter over a run. Rules are put together from a few steps of which only links and nested
rules touch the counter: a link takes a level and keeps it, and may stand inside a chain only, which
gives it back. From how a rule is put together it follows what the counter does at each moment of
its run, and not only at its end.
-/

namespace ScriptLens

open ParseM ScriptLens.Parser

namespace ParseM

/-- A rule put together from the parser's own steps around the rules at the top, which are put
together so themselves (`rules_eq_layer`). Those that are balanced take links inside chains only. -/
abbrev Made (balanced : Bool) {α : Type} (m : ParseM α) : Prop :=
  BuiltOver rules rules true balanced m m

variable {α β : Type} {balanced : Bool} {m : ParseM α} {s : State}

/-- A moment of a run: the parser passes a state, or a nested rule gives back its level at the state
in which it ended. -/
inductive Moment where
  | passing (u : State)
  | leaving (entered ended : State)

/-- A run of the rule comes to the moment, if one follows how the rule is put together. -/
inductive Comes : {α : Type} → ParseM α → State → Moment → Prop
  | start {balanced : Bool} {α : Type} {m : ParseM α} {s : State} :
      Made balanced m → Comes m s (.passing s)
  | stop {balanced : Bool} {α : Type} {m : ParseM α} {s : State} :
      Made balanced m → Comes m s (.passing (m.run s).2)
  | first {α β : Type} {m : ParseM α} {f : α → ParseM β} {s : State} {moment : Moment} :
      Comes m s moment → Comes (m >>= f) s moment
  | second {balanced : Bool} {α β : Type} {m : ParseM α} {f : α → ParseM β} {s t : State} {a : α}
      {moment : Moment} :
      Made balanced m → m.run s = (.ok a, t) → Comes (f a) t moment → Comes (m >>= f) s moment
  | nested {α : Type} {m : ParseM α} {s : State} {moment : Moment} : s.depth < maxDepth →
      Comes m { s with depth := s.depth + 1 } moment → Comes (nested m) s moment
  | leave {α : Type} {m : ParseM α} {s : State} : Made true m → s.depth < maxDepth →
      Comes (nested m) s (.leaving s (m.run { s with depth := s.depth + 1 }).2)
  | chain {α : Type} {m : ParseM α} {s : State} {moment : Moment} :
      Comes m s moment → Comes (chain m) s moment
  | step {α : Type} {step : α → ParseM (α × Bool)} {a : α} {s : State} {moment : Moment} :
      Comes (step a) s moment → Comes (repeating step a) s moment
  | again {balanced : Bool} {α : Type} {step : α → ParseM (α × Bool)} {a c : α} {s t : State}
      {moment : Moment} : Made balanced (step a) → (step a).run s = (.ok (c, true), t) →
      t.ahead.length < s.ahead.length →
      Comes (repeating step c) t moment → Comes (repeating step a) s moment
  | recovered {inner : Level} {s : State} {moment : Moment} :
      Comes (ParseM.nested inner.statement) s.begin moment → Comes (recovered inner) s moment

/-- The counter stands between where the run began and its limit, and a nested rule has one level to
give back. -/
def Moment.Within (s : State) : Moment → Prop
  | passing u => s.depth ≤ u.depth ∧ u.depth ≤ maxDepth
  | leaving entered ended => s.depth ≤ entered.depth ∧ entered.depth < maxDepth ∧
      ended.depth = entered.depth + 1

theorem Moment.Within.earlier {s t : State} {moment : Moment} (h : moment.Within t)
    (deeper : s.depth ≤ t.depth) : moment.Within s := by
  cases moment with
  | passing u => exact ⟨Nat.le_trans deeper h.1, h.2⟩
  | leaving entered ended => exact ⟨Nat.le_trans deeper h.1, h.2⟩

theorem Comes.within {moment : Moment} (h : Comes m s moment) (within : s.depth ≤ maxDepth) :
    moment.Within s := by
  -- what is done before a moment walks, so the counter is within its limit there and no lower than
  -- at the start
  have behind {α : Type} {balanced : Bool} {m : ParseM α} (made : Made balanced m) {s : State}
      (within : s.depth ≤ maxDepth) :
      s.depth ≤ (m.run s).2.depth ∧ (m.run s).2.depth ≤ maxDepth := by
    obtain ⟨walk, higher⟩ := rules_returns.climbs_of_built made s
    exact ⟨higher, walk.depth_le within⟩
  induction h with
  | start _ => exact ⟨Nat.le_refl _, within⟩
  | stop made => exact behind made within
  | first _ ih => exact ih within
  | second made run _ ih =>
      have passed := behind made within
      rw [run] at passed
      exact (ih passed.2).earlier passed.1
  | nested below _ ih => exact (ih below).earlier (Nat.le_succ _)
  | leave made below => exact ⟨Nat.le_refl _, below, (rules_returns.of_built made _).2⟩
  | chain _ ih => exact ih within
  | step _ ih => exact ih within
  | again made run _ _ ih =>
      have passed := behind made within
      rw [run] at passed
      exact (ih passed.2).earlier passed.1
  | recovered _ ih => exact ih within

end ParseM

end ScriptLens
