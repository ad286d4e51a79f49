import ScriptLens.Proofs.Grammar.Sound
import ScriptLens.Proofs.Loops.Nesting

/-!
Rules that consume neither braces nor loop keywords: expressions, lists in parentheses and the
headers of statements. None of them drops a statement.
-/

namespace ScriptLens

open ParseM ScriptLens.Parser Lint

namespace Grammar

variable {gap : List Token → Prop} {items : List (List Token × Expr)} {ts : List Token}
  {e : Expr} {level : Nat}

theorem Row.calm (gaps : ∀ ts, gap ts → Token.Calm ts) (h : Row gap items ts)
    (good : ∀ item ∈ items, Token.Calm item.1) : Token.Calm ts := by
  induction h with
  | @last item behind ends => exact (good item List.mem_cons_self).append (gaps _ ends)
  | @more item items before after ts comma first kind second _ ih =>
      have later := ih fun other member => good other (List.mem_cons_of_mem item member)
      have signed : Token.Calm (comma :: (after ++ ts)) :=
        .cons (by rw [kind]; rfl) ((gaps _ second).append later)
      exact (good item List.mem_cons_self).append ((gaps _ first).append signed)

theorem Inside.calm (gaps : ∀ ts, gap ts → Token.Calm ts) (h : Inside gap items ts)
    (good : ∀ item ∈ items, Token.Calm item.1) : Token.Calm ts := by
  cases h with
  | none blank => exact gaps _ blank
  | some first row => exact (gaps _ first).append (row.calm gaps good)

/-- An expression has neither braces nor loops in it. -/
theorem Derives.calm (gaps : ∀ ts, gap ts → Token.Calm ts) (h : Derives gap level ts e) :
    Token.Calm ts := by
  induction h with
  | assignment _ _ kind _ left right => exact left.append (.cons (by rw [kind]; rfl) right)
  | @binary operator _ _ _ _ _ _ kind _ left right =>
      exact left.append (.cons (by rw [kind]; cases operator <;> rfl) right)
  | @unary operator _ _ _ kind _ inside => exact .cons (by rw [kind]; cases operator <;> rfl) inside
  | call _ opens listed _ closes callee good =>
      have inside := (listed.calm gaps good).append (.one (by rw [closes]; rfl))
      exact callee.append (.cons (by rw [opens]; rfl) inside)
  | @member _ _ dot name _ kind named object =>
      have last :
        name.kind.isCalm = true := by rcases named with named | named <;> rw [named] <;> rfl
      exact object.append (.cons (by rw [kind]; rfl) (.one last))
  | @leaf t e leaf =>
      refine .one ?_
      rw [Token.leaf?] at leaf
      split at leaf
      case h_8 => cases leaf
      all_goals
        next kind =>
          rw [kind]
          rfl
  | group opens _ closes inside =>
      exact .cons (by rw [opens]; rfl) (inside.append (.one (by rw [closes]; rfl)))
  | tighter _ inside => exact inside

end Grammar

namespace ParseM

variable {α : Type} {s : State} {m : ParseM α} {Q Q' : α → List Token → State → Prop}

/-- Quiet rules drop no statement. -/
theorem Takes.quiet (h : Takes s m Q) (climbs : Climbs false m) :
    Takes s m fun a ts t => t.skipped = s.skipped ∧ Q a ts t := by
  intro a t run
  obtain ⟨ts, taken, holds⟩ := h a t run
  exact ⟨ts, taken, (climbs.walk run).skipped, holds⟩

/-- Two things that are known of the tokens consumed. -/
theorem Takes.and (first : Takes s m Q) (second : Takes s m Q') : Takes s m fun a ts t =>
    Q a ts t ∧ Q' a ts t := by
  intro a t run
  obtain ⟨ts, taken, holds⟩ := first a t run
  obtain ⟨us, taken', holds'⟩ := second a t run
  have same : ts = us := List.append_cancel_right (taken.ahead.symm.trans taken'.ahead)
  subst same
  exact ⟨ts, taken, holds, holds'⟩

end ParseM

namespace Parser

variable {α β : Type} {s t u : State} {ts us : List Token} {inner : Level}

section Calm

/-- From a state the rule consumes nothing but calm tokens, and it drops no statement. -/
def CalmAt (s : State) (m : ParseM α) : Prop :=
  Takes s m fun _ ts t => t.skipped = s.skipped ∧ Token.Calm ts

/-- The rule consumes nothing but calm tokens. -/
abbrev Calm (m : ParseM α) : Prop := ∀ s : State, s.Closed → CalmAt s m

theorem calmAt {m : ParseM α} (climbs : Climbs false m)
    (h : Takes s m fun _ ts _ => Token.Calm ts) : CalmAt s m :=
  h.quiet climbs

theorem CalmAt.bind {m : ParseM α} {f : α → ParseM β} (closed : s.Closed) (hm : CalmAt s m)
    (hf : ∀ a, Calm (f a)) : CalmAt s (m >>= f) := by
  refine Takes.bind hm ?_
  rintro a ts t taken ⟨same, calm⟩
  refine (hf a t (taken.closed closed)).weaken ?_
  rintro b us u _ ⟨same', calm'⟩
  exact ⟨same'.trans same, calm.append calm'⟩

namespace Calm

theorem bind {m : ParseM α} {f : α → ParseM β} (hm : Calm m) (hf : ∀ a, Calm (f a)) :
    Calm (m >>= f) :=
  fun s closed => (hm s closed).bind closed hf

theorem get {f : State → ParseM α} (h : ∀ s, Calm (f s)) : Calm (get >>= f) :=
  fun s closed => h s s closed

theorem pure (a : α) : Calm (pure a) := fun _ _ => takes_pure ⟨rfl, .nil⟩

theorem skipNewlines : Calm skipNewlines := fun _ _ =>
  calmAt returns_skipNewlines.climbs (takes_skipNewlines.weaken fun _ _ _ _ => .newlines)

theorem expect {kind : Kind} (other : kind ≠ .eof) (calm : kind.isCalm = true) (what : Expected) :
    Calm (expect kind what) := by
  refine fun s closed =>
    calmAt (returns_expect kind what).climbs ((takes_expect closed other what).weaken ?_)
  rintro a _ t _ ⟨_, rfl, here⟩
  exact .one (by rw [here, calm])

theorem eat {kind : Kind} (other : kind ≠ .eof) (calm : kind.isCalm = true) : Calm (eat kind) := by
  refine fun s closed => calmAt (returns_eat kind).climbs ((takes_eat closed other).weaken ?_)
  rintro eaten _ t _ (⟨_, rfl, here⟩ | ⟨_, rfl, _⟩)
  · exact .one (by rw [here, calm])
  · exact .nil

theorem check (kind : Kind) : Calm (check kind) := by
  refine fun s _ => calmAt (returns_check kind).climbs ((takes_check kind).weaken ?_)
  rintro found _ t _ ⟨rfl, _⟩
  exact .nil

theorem repeating {step : α → ParseM (α × Bool)} (h : ∀ a, Calm (step a)) (a : α) :
    Calm (repeating step a) := by
  intro s closed
  refine takes_loop ⟨rfl, .nil⟩ ?_
  rintro a ts t taken ⟨same, calm⟩
  refine (h a t (taken.closed closed)).weaken ?_
  rintro b us u _ ⟨same', calm'⟩
  exact ⟨same'.trans same, calm.append calm'⟩

theorem nested {m : ParseM α} (h : Calm m) : Calm (nested m) :=
  fun s closed => Takes.nested (h { s with depth := s.depth + 1 } closed) fun _ _ _ _ => id

end Calm

/-- One token. -/
theorem advance_calm (closed : s.Closed) (other : s.peek.kind ≠ .eof)
    (calm : s.peek.kind.isCalm = true) : CalmAt s advance := by
  refine calmAt returns_advance.climbs ((takes_advance closed other).weaken ?_)
  rintro a _ t _ ⟨rfl, rfl, _⟩
  exact .one calm

theorem Derived.calm {m : ParseM Expr} {level : Nat} (h : Derived level m)
    (climbs : Climbs false m) : Calm m :=
  fun s closed =>
    calmAt climbs ((h s closed).weaken fun _ _ _ _ derives => derives.calm fun _ => .newlines)

theorem itemLink_calm {item : ParseM α} (h : Calm item) (items : List α) :
    Calm (itemLink item items) := by
  refine h.bind fun _ => Calm.skipNewlines.bind fun _ =>
    (Calm.eat (by decide) rfl).bind fun more => ?_
  cases more with
  | true => exact Calm.skipNewlines.bind fun _ => .pure _
  | false => exact .pure _

theorem inParens_calm {item : ParseM α} (h : Calm item) (what : Expected) :
    Calm (inParens item what) := by
  refine Calm.skipNewlines.bind fun _ => (Calm.check _).bind fun none => ?_
  have close (items : List α) : Calm (expect .rParen what >>= fun _ => pure items.reverse) :=
    (Calm.expect (by decide) rfl _).bind fun _ => .pure _
  cases none with
  | true => exact close []
  | false => exact (Calm.repeating (itemLink_calm h) []).bind close

theorem variableLink_calm (names : List String) : Calm (variableLink names) := by
  refine (Calm.eat (by decide) rfl).bind fun more => ?_
  cases more with
  | true => exact (Calm.expect (by decide) rfl _).bind fun _ => .pure _
  | false => exact .pure _

theorem loopVariables_calm : Calm loopVariables :=
  (Calm.expect (by decide) rfl _).bind fun _ =>
    (Calm.repeating variableLink_calm _).bind fun _ => .pure _

theorem closeHeader_calm (parenthesized : Bool) : Calm (closeHeader parenthesized) := by
  cases parenthesized with
  | true => exact (Calm.expect (by decide) rfl _).bind fun _ => .pure _
  | false => exact .pure _

theorem superClass?_calm : Calm superClass? := by
  intro s closed
  change CalmAt s (if s.peek.kind = .identifier ∧ Text.sameName s.peek.text "extends" then _ else _)
  split
  · next found =>
      refine (advance_calm closed (by rw [found.1]; decide) (by rw [found.1]; rfl)).bind closed
        fun _ => ?_
      exact (Calm.expect (by decide) rfl _).bind fun _ => .pure _
  · exact Calm.pure _ s closed

variable (derived : inner.Derived) (returns : inner.Returns)

include derived returns

theorem expression_calm : Calm (expression inner) :=
  (expression_sound derived).calm (expression_returns returns).climbs

theorem operand?_calm (closing : Kind) : Calm (operand? inner closing) := by
  refine Calm.get fun s => ?_
  split
  · exact .pure _
  · exact (expression_calm derived returns).bind fun _ => .pure _

theorem param_calm : Calm (param inner) := by
  have default : Calm (default? inner) := by
    refine (Calm.eat (by decide) rfl).bind fun more => ?_
    cases more with
    | true =>
        exact (derived.disjunction.calm returns.disjunction.climbs).nested.bind fun _ => .pure _
    | false => exact .pure _
  exact Calm.get fun _ => (Calm.eat (by decide) rfl).bind fun _ =>
      (Calm.expect (by decide) rfl _).bind fun _ =>
    (Calm.eat (by decide) rfl).bind fun _ => default.bind fun _ => Calm.get fun _ => .pure _

end Calm

end Parser

end ScriptLens
