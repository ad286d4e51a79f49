import ScriptLens.Proofs.Grammar.Derives
import ScriptLens.Proofs.Parser.Takes

/-!
The rules for expressions read nothing but expressions: where a rule succeeds, the tokens that it
consumed derive the tree that it gives, with line breaks as gaps. Levels make no difference, so this
is shown for the whole tower of rules.
-/

namespace ScriptLens

open ParseM ScriptLens.Parser Grammar

namespace ParseM

variable {s : State}

/-- The token that was asked for is the last one consumed. -/
theorem takes_expect_last (closed : s.Closed) {kind : Kind} (other : kind ≠ .eof)
    (what : Expected) :
    Takes s (expect kind what) fun a ts t => ts = [a] ∧ a.kind = kind ∧ t.last = a := by
  intro a t run
  rw [run_expect] at run
  split at run
  · next found =>
      cases run
      have going := State.ahead_ne_nil_of_check closed other found
      obtain ⟨first, rest, ahead⟩ := List.exists_cons_of_ne_nil going
      have last : s.advance.last = s.peek := by
        rw [State.advance_of_cons ahead, State.peek, ahead]
        rfl
      exact ⟨[s.peek], .advance going, rfl, of_decide_eq_true found, last⟩
  · cases run

end ParseM

namespace Parser

/-- What the rule reads is an expression of a level. -/
abbrev Derived (level : Nat) (m : ParseM Expr) : Prop :=
  ∀ s : State, s.Closed → Takes s m fun e ts _ => Derives LineBreaks level ts e

variable {s : State} {inner : Level} {level : Nat}

theorem Derived.nested {m : ParseM Expr} (h : Derived level m) : Derived level (nested m) :=
  fun _ closed => Takes.nested (h _ closed) fun _ _ _ _ => id

theorem Derived.tighter {m : ParseM Expr} (h : Derived (level + 1) m) : Derived level m :=
  fun s closed => (h s closed).weaken fun _ _ _ _ => .tighter

theorem primary_sound (h : Derived 0 (expression inner)) : Derived 9 (primary inner) := by
  intro s closed
  apply takes_get
  dsimp only
  split
  case h_8 kind =>
    refine (takes_advance closed (by rw [kind]; decide)).bind ?_
    rintro _ _ t taken ⟨rfl, rfl, rfl⟩
    refine (h _ (taken.closed closed)).bind ?_
    intro e ts u taken' derives
    refine (takes_expect (taken'.closed (taken.closed closed)) (by decide) _).bind ?_
    rintro closing _ _ _ ⟨_, rfl, closes⟩
    refine takes_pure ?_
    rw [List.append_nil]
    exact .group kind derives closes
  case h_9 => exact takes_refuse _
  all_goals
    next kind =>
      refine (takes_advance closed (by rw [kind]; decide)).bind ?_
      rintro _ _ t _ ⟨rfl, rfl, rfl⟩
      refine takes_pure (.leaf ?_)
      rw [Token.leaf?, kind]

section Arguments

/-- Arguments, latest first, and the tokens of each. -/
structure Listed (args : List Expr) (items : List (List Token × Expr)) : Prop where
  same : args.reverse = items.map Prod.snd
  derives : ∀ item ∈ items, Derives LineBreaks 0 item.1 item.2

/-- Arguments read so far, each with its comma, so that another one must follow. -/
def Started (args : List Expr) (ts : List Token) : Prop :=
  ∃ items, Listed args items ∧ ∀ more us, Row LineBreaks more us →
    Row LineBreaks (items ++ more) (ts ++ us)

/-- All arguments. -/
def Finished (args : List Expr) (ts : List Token) : Prop :=
  ∃ items, Listed args items ∧ Row LineBreaks items ts

theorem started_nil : Started [] [] := ⟨[], ⟨rfl, by simp⟩, fun _ _ row => row⟩

variable {args : List Expr} {e : Expr} {ts us vs ws : List Token} {sign : Token}

theorem Listed.snoc {items : List (List Token × Expr)} (h : Listed args items)
    (derives : Derives LineBreaks 0 us e) : Listed (e :: args) (items ++ [(us, e)]) := by
  refine ⟨by simp [h.same], ?_⟩
  intro item member
  rcases List.mem_append.mp member with older | new
  · exact h.derives item older
  · rw [List.mem_singleton.mp new]
    exact derives

theorem Started.more (h : Started args ts) (derives : Derives LineBreaks 0 us e)
    (first : LineBreaks vs) (kind : sign.kind = .comma) (second : LineBreaks ws) :
    Started (e :: args) (ts ++ (us ++ (vs ++ sign :: ws))) := by
  obtain ⟨items, listed, row⟩ := h
  refine ⟨items ++ [(us, e)], listed.snoc derives, fun more xs later => ?_⟩
  have next : Row LineBreaks ((us, e) :: more) (us ++ (vs ++ sign :: (ws ++ xs))) :=
    .more first kind second later
  simpa using row _ _ next

theorem Started.last (h : Started args ts) (derives : Derives LineBreaks 0 us e)
    (behind : LineBreaks vs) : Finished (e :: args) (ts ++ (us ++ vs)) := by
  obtain ⟨items, listed, row⟩ := h
  have final : Row LineBreaks [(us, e)] (us ++ vs) := .last behind
  exact ⟨items ++ [(us, e)], listed.snoc derives, row _ _ final⟩

theorem itemLink_sound {item : ParseM Expr} (h : Derived 0 item) (closed : s.Closed)
    (started : Started args ts) :
    Takes s (itemLink item args) fun next us _ =>
      if next.2 = true then us ≠ [] ∧
        Started next.1 (ts ++ us) else Finished next.1 (ts ++ us) := by
  refine (h s closed).bind ?_
  intro e us t taken derives
  have closed' := taken.closed closed
  refine takes_skipNewlines.bind ?_
  intro _ vs u taken' first
  have closed'' := taken'.closed closed'
  refine (takes_eat closed'' (by decide)).bind ?_
  rintro comma _ v _ (⟨rfl, rfl, kind⟩ | ⟨rfl, rfl, rfl, _⟩)
  · refine takes_skipNewlines.bind ?_
    intro _ ws w _ second
    refine takes_pure ?_
    rw [if_pos rfl, List.append_nil]
    exact ⟨by simp, started.more derives first kind second⟩
  · refine takes_pure ?_
    rw [if_neg (by simp), List.append_nil, List.append_nil]
    exact started.last derives first

theorem arguments_sound (h : Derived 0 (expression inner)) (closed : s.Closed) :
    Takes s (arguments inner) fun args us t => ∃ items inside closing, us = inside ++ [closing] ∧
    closing.kind = .rParen ∧ t.last = closing ∧ Inside LineBreaks items inside ∧
      (∀ item ∈ items, Derives LineBreaks 0 item.1 item.2) ∧ args = items.map Prod.snd := by
  refine takes_skipNewlines.bind ?_
  intro _ front t taken blank
  have closed' := taken.closed closed
  have close {u : State} {args : List Expr} {items : List (List Token × Expr)} {ts : List Token}
      (closed : u.Closed) (inside : Inside LineBreaks items ts) (listed : Listed args items) :
      Takes u (expect .rParen .closeArguments >>= fun _ => pure args.reverse) fun args us t =>
      ∃ items inside closing, ts ++ us = inside ++ [closing] ∧
        closing.kind = .rParen ∧ t.last = closing ∧ Inside LineBreaks items inside ∧
          (∀ item ∈ items, Derives LineBreaks 0 item.1 item.2) ∧ args = items.map Prod.snd := by
    refine (takes_expect_last closed (by decide) _).bind ?_
    rintro closing _ v _ ⟨rfl, closes, last⟩
    exact takes_pure ⟨items, ts, closing, rfl, closes, last, inside, listed.derives, listed.same⟩
  refine (takes_check .rParen).bind ?_
  rintro found _ _ _ ⟨rfl, rfl, _⟩
  split
  · exact close closed' (.none blank) ⟨rfl, by simp⟩
  · refine Takes.bind (Q := fun args us _ => Finished args us) ?_ ?_
    · refine takes_repeating_moving (P := fun args us _ => Started args us) started_nil ?_
      intro args us u taken' started
      exact itemLink_sound h (taken'.closed closed') started
    · rintro args us u taken' ⟨items, listed, row⟩
      refine (close (taken'.closed closed') (.some blank row) listed).weaken ?_
      intro args vs v _ found
      simpa using found

end Arguments

theorem postfixLink_sound (h : Derived 0 (expression inner)) (closed : s.Closed)
    {before : List Token} {e : Expr} (derives : Derives LineBreaks 8 before e) :
    Takes s (postfixLink inner e) fun next us _ => Derives LineBreaks 8 (before ++ us) next.1 := by
  refine (takes_eat closed (by decide)).bind ?_
  rintro call _ t taken (⟨rfl, rfl, opens⟩ | ⟨rfl, rfl, rfl, _⟩)
  · have closed' := taken.closed closed
    refine takes_link.bind ?_
    rintro _ _ u taken' ⟨rfl, _⟩
    refine (arguments_sound h (taken'.closed closed')).bind ?_
    rintro args _ v _ ⟨items, inside, closing, rfl, closes, rfl, listed, good, rfl⟩
    apply takes_get
    refine takes_pure ?_
    simpa using Derives.call derives opens listed good closes
  · refine (takes_eat closed (by decide)).bind ?_
    rintro dot _ t taken (⟨rfl, rfl, dotted⟩ | ⟨rfl, rfl, rfl, _⟩)
    · have closed' := taken.closed closed
      refine takes_link.bind ?_
      rintro _ _ u taken' ⟨rfl, _⟩
      apply takes_get
      dsimp only
      split
      · next named =>
          have going :
            u.peek.kind ≠ .eof := by rcases named with kind | kind <;> rw [kind] <;> decide
          refine (takes_advance (taken'.closed closed') going).bind ?_
          rintro _ _ v _ ⟨rfl, rfl, rfl⟩
          exact takes_pure (.member derives dotted named)
      · exact takes_refuse _
    · exact takes_pure (by simpa using derives)

theorem postfixed_sound (h : Derived 0 (expression inner)) : Derived 8 (postfixed inner) := by
  intro s closed
  refine Takes.chain ?_ fun _ _ _ _ => id
  refine (primary_sound h s closed).bind ?_
  intro e ts t taken derives
  refine takes_loop (Q := fun e us _ => Derives LineBreaks 8 (ts ++ us) e) ?_ ?_
  · rw [List.append_nil]
    exact .tighter derives
  · intro e us u taken' derives'
    simpa using postfixLink_sound h (taken'.closed (taken.closed closed)) derives'

theorem unary_sound (h : Derived 0 (expression inner)) (below : Derived 7 inner.unary) :
    Derived 7 (unary inner) := by
  intro s closed
  have signed (operator : UnaryOp) (kind : s.peek.kind = operator.kind) :
      Takes s (advance >>= fun _ => ParseM.nested inner.unary >>= fun argument =>
        pure (Expr.unary operator argument (s.peek.span.cover argument.span))) fun e ts _ =>
            Derives LineBreaks 7 ts e := by
    refine (takes_advance closed (by rw [kind]; cases operator <;> decide)).bind ?_
    rintro _ _ t taken ⟨rfl, rfl, rfl⟩
    refine (below.nested _ (taken.closed closed)).bind ?_
    intro argument ts u _ derives
    refine takes_pure ?_
    rw [List.append_nil]
    exact .unary kind derives
  apply takes_get
  dsimp only
  split
  case h_1 kind => exact signed .not kind
  case h_2 kind => exact signed .negate kind
  case h_3 => exact (postfixed_sound h).tighter s closed

/-- A chain of a level, with operands of the next one. -/
theorem leftChain_sound {operand : ParseM Expr} (h : Derived (level + 1) operand) :
    Derived level (leftChain (opsAt level) operand) := by
  intro s closed
  refine Takes.chain ?_ fun _ _ _ _ => id
  refine (h s closed).bind ?_
  intro left ts t taken derives
  refine takes_loop (Q := fun left us _ => Derives LineBreaks level (ts ++ us) left) ?_ ?_
  · rw [List.append_nil]
    exact .tighter derives
  intro left us u taken' derives'
  have closed' := taken'.closed (taken.closed closed)
  apply takes_get
  split
  · refine takes_pure ?_
    rw [List.append_nil]
    exact derives'
  · next operator found =>
      obtain ⟨rfl, kind⟩ := opsAt_some found
      refine (takes_advance closed' (by rw [kind]; cases operator <;> decide)).bind ?_
      rintro _ _ v taken'' ⟨rfl, rfl, rfl⟩
      refine takes_link.bind ?_
      rintro _ _ w linked ⟨rfl, _⟩
      refine (h w (linked.closed (taken''.closed closed'))).bind ?_
      intro right vs x _ derives''
      refine takes_pure ?_
      rw [binary]
      simpa using Derives.binary derives' kind derives''

theorem disjunction_sound (h : Derived 0 (expression inner)) (below : Derived 7 inner.unary) :
    Derived 1 (disjunction inner) :=
  leftChain_sound <| leftChain_sound <| leftChain_sound <| leftChain_sound <| leftChain_sound <|
    leftChain_sound <| unary_sound h below

theorem assignment_sound (h : Derived 0 (expression inner)) (below : Derived 7 inner.unary)
    (value : Derived 0 inner.assignment) : Derived 0 (assignment inner) := by
  intro s closed
  refine (disjunction_sound h below s closed).bind ?_
  intro target ts t taken derives
  have closed' := taken.closed closed
  refine (takes_check .assign).bind ?_
  rintro found _ _ _ ⟨rfl, rfl, rfl⟩
  split
  · next assigns =>
      have kind : t.peek.kind = .assign := of_decide_eq_true assigns
      split
      · next assignable =>
          refine (takes_advance closed' (by rw [kind]; decide)).bind ?_
          rintro _ _ u taken' ⟨rfl, rfl, rfl⟩
          refine (value.nested _ (taken'.closed closed')).bind ?_
          intro value us v _ derives'
          refine takes_pure ?_
          simpa using Derives.assignment derives assignable kind derives'
      · exact takes_refuse _
  · refine takes_pure ?_
    rw [List.append_nil, List.append_nil]
    exact .tighter derives

end Parser

/-- The rules of a level read expressions. -/
structure Level.Derived (inner : Level) : Prop where
  assignment : Parser.Derived 0 inner.assignment
  disjunction : Parser.Derived 1 inner.disjunction
  unary : Parser.Derived 7 inner.unary

namespace Parser

theorem expression_sound {inner : Level} (h : inner.Derived) : Derived 0 (expression inner) :=
  h.assignment.nested

theorem tower_sound (levels : Nat) : (tower levels).Derived := by
  induction levels with
  | zero => exact ⟨fun _ _ => takes_refuse _, fun _ _ => takes_refuse _, fun _ _ => takes_refuse _⟩
  | succ levels ih =>
      have inside := expression_sound ih
      exact ⟨assignment_sound inside ih.unary ih.assignment, disjunction_sound inside ih.unary,
        unary_sound inside ih.unary⟩

theorem rules_sound : rules.Derived := tower_sound _

end Parser

end ScriptLens
