import ScriptLens.Proofs.Parser.Levels

/-!
The tower of levels is as good as an endless one. A rule reaches the level below only through the
depth counter, so the floor of the tower lies deeper than any run gets, and the rules at the top
satisfy the equations of the grammar with themselves as inner rules.
-/

namespace ScriptLens

open ParseM ScriptLens.Parser

namespace ParseM

variable {α β : Type} {b : Bool} {n : Nat}

/-- Two rules that run alike from a depth on. -/
def Agree (n : Nat) (m m' : ParseM α) : Prop := ∀ s, n ≤ s.depth → m.run s = m'.run s

theorem Agree.rfl {m : ParseM α} : Agree n m m := fun _ _ => Eq.refl _

theorem Agree.bind {m m' : ParseM α} {f f' : α → ParseM β} (hm : Agree n m m') (climbs : Climbs b m)
    (hf : ∀ a, Agree n (f a) (f' a)) : Agree n (m >>= f) (m' >>= f') := by
  intro s deep
  have later := Nat.le_trans deep (climbs s).2
  rw [run_bind, run_bind, ← hm s deep]
  generalize m.run s = outcome at later
  obtain ⟨result, t⟩ := outcome
  cases result with
  | error e => exact Eq.refl _
  | ok a => exact hf a t later

theorem Agree.chain {m m' : ParseM α} (h : Agree n m m') : Agree n (chain m) (chain m') := by
  intro s deep
  rw [run_chain, run_chain, h s deep]

theorem Agree.repeating {step step' : α → ParseM (α × Bool)} (h : ∀ a, Agree n (step a) (step' a))
    (climbs : ∀ a, Climbs b (step a)) (a : α) : Agree n (repeating step a) (repeating step' a) := by
  intro s deep
  -- the same rounds are rounds of both loops
  refine Eq.symm (Rounds.run ?_)
  have rounds := rounds_repeating step a s
  generalize (ParseM.repeating step a).run s = outcome at rounds ⊢
  induction rounds with
  | failed run => exact .failed ((h _ _ deep).symm.trans run)
  | stopped run done => exact .stopped ((h _ _ deep).symm.trans run) done
  | again run shorter _ ih =>
      exact .again ((h _ _ deep).symm.trans run) shorter
        (ih (Nat.le_trans deep ((climbs _).depth_le run)))

/-- Where the depth counter is at its limit, nothing nested is reached. -/
theorem agree_nested_of_maxDepth {m m' : ParseM α} : Agree maxDepth (nested m) (nested m') := by
  intro s deep
  rw [run_nested, run_nested, if_pos deep, if_pos deep]

theorem Agree.nested {m m' : ParseM α} (h : Agree (n + 1) m m') :
    Agree n (nested m) (nested m') := by
  intro s deep
  have inside := h { s with depth := s.depth + 1 } (Nat.succ_le_succ deep)
  rw [run_nested, run_nested, inside]

/-- What is built alike of rules that run alike from a depth on, and give back their levels, runs
alike from that depth on. -/
theorem Built.agree {Given : {α : Type} → ParseM α → ParseM α → Prop} {Allowed : ParseCause → Prop}
    {balanced : Bool} {m m' : ParseM α}
    (returns : ∀ {α : Type} {m m' : ParseM α}, Given m m' → Returns b m)
    (given : ∀ {α : Type} {m m' : ParseM α}, Given m m' → Agree n m m')
    (h : Built Given Allowed balanced m m') : Agree n m m' := by
  induction h with
  | given rule => exact given rule
  | pure | get | refuse | advance | skipNewlines | skipLine | link => exact .rfl
  | bind first _ same rest => exact same.bind (first.walks returns).1 rest
  | chain _ same => exact same.chain
  | repeating a step same => exact Agree.repeating same (fun a => ((step a).walks returns).1) a

end ParseM

/-- Two levels whose rules run alike when nested at a depth. -/
structure Level.Agrees (n : Nat) (inner inner' : Level) : Prop where
  assignment : Agree n (nested inner.assignment) (nested inner'.assignment)
  disjunction : Agree n (nested inner.disjunction) (nested inner'.disjunction)
  unary : Agree n (nested inner.unary) (nested inner'.unary)
  ifChain : Agree n (nested inner.ifChain) (nested inner'.ifChain)
  statement : Agree n (nested inner.statement) (nested inner'.statement)

namespace Level.Agrees

variable {α : Type} {inner inner' : Level} {loud : Bool} {n : Nat} {m m' : ParseM α}

theorem beneath (h : inner.Agrees n inner') (rule : Beneath inner inner' loud m m') :
    Agree n m m' := by
  cases rule with
  | assignment => exact h.assignment
  | disjunction => exact h.disjunction
  | unary => exact h.unary
  | ifChain => exact h.ifChain
  | statement => exact h.statement
  | recovered =>
      intro s deep
      rw [run_recovered, run_recovered, h.statement s.begin deep]

theorem of_built {Allowed : ParseCause → Prop} (h : inner.Agrees n inner') (returns : inner.Returns)
    (built : Built (Beneath inner inner' true) Allowed true m m') : Agree n m m' :=
  built.agree returns.beneath h.beneath

end Level.Agrees

namespace Parser

variable {inner inner' : Level} {n : Nat}

/-- Two layers over levels that agree when nested, themselves nested one level higher. -/
theorem layer_agrees (h : inner.Agrees (n + 1) inner') (hr : inner.Returns) :
    (layer inner).Agrees n (layer inner') :=
  ⟨(h.of_built hr assignment_built).nested, (h.of_built hr disjunction_built).nested,
    (h.of_built hr unary_built).nested,
    (h.of_built hr ifChain_built).nested, (h.of_built hr statement_built).nested⟩

theorem agrees_of_maxDepth : inner.Agrees maxDepth inner' :=
  ⟨agree_nested_of_maxDepth, agree_nested_of_maxDepth, agree_nested_of_maxDepth,
    agree_nested_of_maxDepth, agree_nested_of_maxDepth⟩

theorem tower_agrees (levels : Nat) (h : levels ≤ maxDepth) :
    (tower levels).Agrees (maxDepth - levels) (tower (levels + 1)) := by
  induction levels with
  | zero => exact agrees_of_maxDepth
  | succ levels ih =>
      have below := ih (Nat.le_of_succ_le h)
      have depth : maxDepth - levels = maxDepth - (levels + 1) + 1 := by omega
      rw [depth] at below
      exact layer_agrees below (tower_returns levels)

/-- The rules at the top are rules over themselves: the recursion of the grammar is not cut
short. -/
theorem rules_eq_layer : rules = layer rules := by
  have agrees := tower_agrees maxDepth (Nat.le_refl _)
  rw [Nat.sub_self] at agrees
  have returns := tower_returns maxDepth
  have same : ∀ {α : Type} {m m' : ParseM α}, Agree 0 m m' → m = m' := by
    intro α m m' h
    funext s
    exact h s (Nat.zero_le _)
  change layer (tower maxDepth) = layer (tower (maxDepth + 1))
  rw [layer, layer, same (agrees.of_built returns assignment_built),
    same (agrees.of_built returns disjunction_built), same (agrees.of_built returns unary_built),
    same (agrees.of_built returns ifChain_built), same (agrees.of_built returns statement_built)]

theorem rules_assignment : rules.assignment = assignment rules :=
  congrArg Level.assignment rules_eq_layer

theorem rules_disjunction : rules.disjunction = disjunction rules :=
  congrArg Level.disjunction rules_eq_layer

theorem rules_unary : rules.unary = unary rules := congrArg Level.unary rules_eq_layer

theorem rules_ifChain : rules.ifChain = ifChain rules := congrArg Level.ifChain rules_eq_layer

theorem rules_statement : rules.statement = statement rules :=
  congrArg Level.statement rules_eq_layer

end Parser

end ScriptLens
