import ScriptLens.Proofs.Parser.Tally

/-!
Why rules fail. An expression fails for one of seven causes, a parameter list for two more, and a
loop over statements for none, since each of them recovers; so a block fails only at its braces.
-/

namespace ScriptLens.ParseM

open ScriptLens.Parser

variable {α β : Type} {causes : List ParseCause} {m : ParseM α}

/-- The rule fails for listed causes only. -/
def Raises (causes : List ParseCause) (m : ParseM α) : Prop :=
  ∀ s e t, m.run s = (.error e, t) → e.cause ∈ causes

theorem Raises.bind {f : α → ParseM β} (hm : Raises causes m) (hf : ∀ a, Raises causes (f a)) :
    Raises causes (m >>= f) := by
  intro s e t run
  rcases run_bind_eq_error run with first | ⟨a, u, _, rest⟩
  · exact hm s e t first
  · exact hf a u e t rest

theorem raises_pure (a : α) : Raises causes (pure a) := by
  intro s e t run
  cases run

theorem raises_get : Raises causes get := by
  intro s e t run
  cases run

theorem raises_advance : Raises causes advance := by
  intro s e t run
  cases run

theorem raises_skipNewlines : Raises causes skipNewlines := by
  intro s e t run
  cases run

theorem raises_skipLine : Raises causes (modify State.skipLine : ParseM PUnit) := by
  intro s e t run
  cases run

theorem raises_refuse {cause : ParseCause} (listed : cause ∈ causes) :
    Raises causes (refuse cause : ParseM α) := by
  intro s e t run
  cases run
  exact listed

theorem raises_link (listed : .chainTooLong ∈ causes) : Raises causes link := by
  intro s e t run
  rw [run_link] at run
  split at run
  · cases run
    exact listed
  · cases run

theorem Raises.nested (h : Raises causes m) (listed : .nestedTooDeeply ∈ causes) :
    Raises causes (nested m) := by
  intro s e t run
  rw [run_nested] at run
  split at run
  · cases run
    exact listed
  · obtain ⟨failed, _⟩ := Prod.mk.inj run
    exact h { s with depth := s.depth + 1 } e _ (Prod.ext failed rfl)

theorem Raises.chain (h : Raises causes m) : Raises causes (chain m) := by
  intro s e t run
  rw [run_chain] at run
  obtain ⟨failed, _⟩ := Prod.mk.inj run
  exact h s e _ (Prod.ext failed rfl)

theorem Raises.repeating {step : α → ParseM (α × Bool)} (h : ∀ a, Raises causes (step a)) (a : α) :
    Raises causes (repeating step a) := by
  intro s e t run
  replace run := rounds_of_run run
  generalize ended : (Except.error e, t) = outcome at run
  induction run with
  | failed run =>
      cases ended
      exact h _ _ e t run
  | stopped => cases ended
  | again _ _ _ ih => exact ih ended

/-- What is built of rules that fail for listed causes, and refuses for listed causes itself. -/
theorem Built.raises {Given : {α : Type} → ParseM α → ParseM α → Prop} {balanced : Bool}
    {m m' : ParseM α} (given : ∀ {α : Type} {m m' : ParseM α}, Given m m' → Raises causes m)
    (h : Built Given (· ∈ causes) balanced m m') : Raises causes m := by
  induction h with
  | given rule => exact given rule
  | pure a => exact raises_pure a
  | get => exact raises_get
  | refuse listed => exact raises_refuse listed
  | advance => exact raises_advance
  | skipNewlines => exact raises_skipNewlines
  | skipLine => exact raises_skipLine
  | bind _ _ first rest => exact first.bind rest
  | link listed => exact raises_link listed
  | chain _ inside => exact inside.chain
  | repeating a _ steps => exact Raises.repeating steps a

end ScriptLens.ParseM

namespace ScriptLens

open ParseM ScriptLens.Parser

/-- The rules for expressions fail as expressions do. -/
structure Level.Raises (inner : Level) : Prop where
  assignment : ParseM.Raises expressionCauses inner.assignment
  disjunction : ParseM.Raises expressionCauses inner.disjunction
  unary : ParseM.Raises expressionCauses inner.unary

namespace Level.Raises

variable {α : Type} {inner inner' : Level} {causes : List ParseCause} {m m' : ParseM α}

theorem beneath (h : inner.Raises) (listed : expressionCauses ⊆ causes)
    (rule : Beneath inner inner' false m m') : ParseM.Raises causes m := by
  have reached {m : ParseM Expr} (h : ParseM.Raises expressionCauses m) :
      ParseM.Raises causes (nested m) :=
    fun s e t run => listed (h.nested (by decide) s e t run)
  cases rule with
  | assignment => exact reached h.assignment
  | disjunction => exact reached h.disjunction
  | unary => exact reached h.unary

theorem of_built (h : inner.Raises) (listed : expressionCauses ⊆ causes)
    (built : Built (Beneath inner inner false) (· ∈ causes) true m m) : ParseM.Raises causes m :=
  built.raises (h.beneath listed)

end Level.Raises

namespace Parser

variable {inner : Level} {causes : List ParseCause}

theorem tower_raises (levels : Nat) : (tower levels).Raises := by
  induction levels with
  | zero =>
      exact ⟨raises_refuse (by decide), raises_refuse (by decide), raises_refuse (by decide)⟩
  | succ levels ih =>
      have same : expressionCauses ⊆ expressionCauses := List.Subset.refl _
      exact ⟨ih.of_built same assignment_built, ih.of_built same disjunction_built,
        ih.of_built same unary_built⟩

theorem params_raises (h : inner.Raises) : Raises parameterCauses (params inner) :=
  h.of_built (by decide) params_built

/-- A statement that fails is dropped, so a loop over statements goes on. -/
theorem recovered_raises : Raises causes (recovered inner) := by
  intro s e t run
  obtain ⟨stmt, u, found⟩ := recovered_ok inner s
  cases found.symm.trans run

/-- Where a block opens, only its closing brace can be missing. -/
theorem block_error {s t : State} {e : ParseError} (opens : s.peek.kind = .lBrace)
    (run : (block inner).run s = (.error e, t)) : e.cause = .expected .closeBlock := by
  have built : Built (fun m _ => Raises [.expected .closeBlock] m) (· ∈ [.expected .closeBlock])
      true (statementsUntil inner (fun s => s.atEnd || s.check .rBrace) >>= fun body =>
        expect .rBrace .closeBlock >>= fun _ => pure body)
      (statementsUntil inner (fun s => s.atEnd || s.check .rBrace) >>= fun body =>
        expect .rBrace .closeBlock >>= fun _ => pure body) :=
    .bind (statementsUntil_built recovered_raises _) fun _ =>
      .bind (.expect _ (List.mem_singleton_self _)) fun _ => .pure _
  have here : s.check .lBrace = true := decide_eq_true opens
  have brace : (expect .lBrace .openBlock).run s = (.ok s.peek, s.advance) := by
    rw [run_expect, if_pos here]
  rw [block, run_bind_ok brace] at run
  exact List.mem_singleton.mp (built.raises id _ e t run)

end Parser

end ScriptLens
