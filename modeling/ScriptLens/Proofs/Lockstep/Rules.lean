import ScriptLens.Proofs.Parser.Progress
import Mathlib.Data.List.Forall2

/-!
Two parsers side by side. Rules look at nothing of a state but what comes next in it, and make spans
of nothing but the tokens that they consume. So two parsers that stand at the same token do the same
from there on: both give results that are alike and stand at the same token again, or both fail.
What it means to stand at the same token, and which tokens, spans and errors are alike, is left open
here. A property of one parser is a relation of that parser to itself.
-/

namespace ScriptLens

open ParseM ScriptLens.Parser

/-- Kinds of tokens whose text and place matter to a tree. -/
def Kind.isSolid : Kind → Bool
  | newline | comment | eof => false
  | _ => true

section Views

variable {α β : Type} {f g : α → β}

theorem map_eq_of_forall₂ {as bs : List α} (h : List.Forall₂ (fun a b => f b = g a) as bs) :
    bs.map f = as.map g := by
  induction h with
  | nil => rfl
  | cons same _ ih => rw [List.map_cons, List.map_cons, same, ih]

theorem map_eq_of_rel {a b : Option α} (h : Option.Rel (fun a b => f b = g a) a b) :
    b.map f = a.map g := by
  cases h with
  | none => rfl
  | some same => exact congrArg some same

end Views

namespace Parser

/-- What is kept alike on two sides. -/
structure Sides where
  /-- Both parsers stand at the same token. -/
  Here : State → State → Prop
  /-- Both parsers stand at the same token once they have passed over line breaks. -/
  Late : State → State → Prop
  Tokens : Token → Token → Prop
  Spans : Span → Span → Prop
  /-- What is left of a line on both sides. -/
  Lines : List Char → List Char → Prop
  /-- Errors of both parsers with the states that they leave behind. -/
  Fails : ParseError → ParseError → State → State → Prop

namespace Sides

variable {α β γ δ : Type}

/-- What a rule gives on both sides: results in a relation with the states behind them, or
errors. -/
inductive Gives (S : Sides) (Q : α → β → State → State → Prop) :
    Except ParseError α × State → Except ParseError β × State → Prop
  | ok {a b s t} : Q a b s t → Gives S Q (.ok a, s) (.ok b, t)
  | failed {e e' s t} : S.Fails e e' s t → Gives S Q (.error e, s) (.error e', t)

variable (S : Sides)

/-- Results in a relation, behind the same token. -/
abbrev Both (R : α → β → Prop) (a : α) (b : β) (s t : State) : Prop := R a b ∧ S.Here s t

/-- Results in a relation, the second parser perhaps before line breaks. -/
abbrev Trailing (R : α → β → Prop) (a : α) (b : β) (s t : State) : Prop := R a b ∧ S.Late s t

/-- Two rules that do the same from the same token on. -/
def Alike (Q : α → β → State → State → Prop) (m : ParseM α) (m' : ParseM β) : Prop :=
  ∀ s t, S.Here s t → S.Gives Q (m.run s) (m'.run t)

/-- Tokens of a kind that are alike. -/
abbrev Token (kind : Kind) (a b : ScriptLens.Token) : Prop := a.kind = kind ∧ S.Tokens a b

end Sides

/-- Two parsers that keep in step: what comes next is the same on both sides, and it still is behind
each step of a parser. -/
structure Lockstep (S : Sides) : Prop where
  late {s t : State} : S.Here s t → S.Late s t
  closed {s t : State} : S.Late s t → s.Closed ∧ t.Closed
  skipNewlines {s t : State} : S.Late s t → S.Here s.skipNewlines t.skipNewlines
  kind {s t : State} : S.Here s t → t.peek.kind = s.peek.kind
  atEnd {s t : State} : S.Here s t → t.atEnd = s.atEnd
  atFunction {s t : State} : S.Here s t → t.atFunction = s.atFunction
  token {s t : State} : S.Here s t → s.peek.kind.isSolid = true → S.Tokens s.peek t.peek
  advance {s t : State} : S.Here s t → s.peek.kind.isSolid = true → S.Here s.advance t.advance
  last {s t : State} :
    S.Here s t → s.peek.kind.isSolid = true → S.Spans s.advance.last.span t.advance.last.span
  lineText {s t : State} : S.Here s t → S.Lines s.lineText t.lineText
  skipLine {s t : State} : S.Here s t → S.Here s.skipLine t.skipLine
  spanFrom {s t : State} {a b : Token} :
    S.Late s t → S.Tokens a b → S.Spans (s.spanFrom a) (t.spanFrom b)
  span {a b : Token} : S.Tokens a b → S.Spans a.span b.span
  text {a b : Token} : S.Tokens a b → a.kind ≠ .string → b.text = a.text
  refuse {s t : State} (cause : ParseCause) :
    S.Here s t → S.Fails ⟨cause, s.peek⟩ ⟨cause, t.peek⟩ s t

variable {α β γ δ : Type} {S : Sides} {s t : State}

namespace Sides

section Bind

variable {P : α → β → State → State → Prop} {Q Q' : γ → δ → State → State → Prop}
  {R : α → β → Prop} {m : ParseM α} {m' : ParseM β} {n : α → ParseM γ} {n' : β → ParseM δ}

theorem Gives.bind (h : S.Gives P (m.run s) (m'.run t))
    (next : ∀ a b u v, P a b u v → S.Gives Q ((n a).run u) ((n' b).run v)) :
    S.Gives Q ((m >>= n).run s) ((m' >>= n').run t) := by
  rw [run_bind, run_bind]
  generalize m.run s = here at h
  generalize m'.run t = there at h
  cases h with
  | ok result => exact next _ _ _ _ result
  | failed errors => exact .failed errors

/-- A rule that continues one which ends at the same token. -/
theorem Gives.andThen (h : S.Gives (S.Both R) (m.run s) (m'.run t))
    (next : ∀ a b, R a b → S.Alike Q (n a) (n' b)) :
    S.Gives Q ((m >>= n).run s) ((m' >>= n').run t) :=
  h.bind fun a b u v both => next a b both.1 u v both.2

theorem Alike.bind (h : S.Alike (S.Both R) m m') (next : ∀ a b, R a b → S.Alike Q (n a) (n' b)) :
    S.Alike Q (m >>= n) (m' >>= n') :=
  fun s t here => (h s t here).andThen next

theorem Gives.imp {outcome : Except ParseError γ × State} {outcome' : Except ParseError δ × State}
    (h : S.Gives Q outcome outcome') (imp : ∀ a b u v, Q a b u v → Q' a b u v) :
    S.Gives Q' outcome outcome' := by
  cases h with
  | ok result => exact .ok (imp _ _ _ _ result)
  | failed errors => exact .failed errors

theorem Alike.imp {m : ParseM γ} {m' : ParseM δ} (h : S.Alike Q m m')
    (imp : ∀ a b u v, Q a b u v → Q' a b u v) : S.Alike Q' m m' :=
  fun s t here => (h s t here).imp imp

theorem alike_pure {a : α} {b : β} (same : R a b) : S.Alike (S.Both R) (pure a) (pure b) :=
  fun _ _ here => .ok ⟨same, here⟩

theorem alike_get {n : State → ParseM γ} {n' : State → ParseM δ}
    (next : ∀ s t, S.Here s t → S.Gives Q ((n s).run s) ((n' t).run t)) :
    S.Alike Q (get >>= n) (get >>= n') :=
  next

end Bind

section Loop

variable {R : α → α → Prop} {step : α → ParseM (α × Bool)}

/-- Two loops go on together if each step does the same and asks for the next one alike. -/
theorem Gives.of_loops {P : State → State → Prop}
    (one : ∀ a b s t, R a b → P s t → S.Gives (fun c d u v => R c.1 d.1 ∧ d.2 = c.2 ∧
      if c.2 then P u v else S.Here u v) ((step a).run s) ((step b).run t))
    {a b : α} {s t : State} {outcome outcome' : Except ParseError α × State}
    (here : Loops step a s outcome) (there : Loops step b t outcome') (same : R a b)
    (start : P s t) : S.Gives (S.Both R) outcome outcome' := by
  induction here generalizing b t with
  | @failed a s u e run =>
      have first := one a b s t same start
      rw [run] at first
      generalize run' : (step b).run t = other at first
      cases first with
      | failed errors =>
          cases there with
          | failed run'' =>
              cases run'.symm.trans run''
              exact .failed errors
          | stopped run'' => cases run'.symm.trans run''
          | again run'' => cases run'.symm.trans run''
  | @stopped a s u c run =>
      have first := one a b s t same start
      rw [run] at first
      generalize run' : (step b).run t = other at first
      cases first with
      | @ok _ d _ v result =>
          obtain ⟨d, more⟩ := d
          obtain ⟨same', rfl, behind⟩ := result
          rw [there.done run']
          exact .ok ⟨same', behind⟩
  | @again a s u c outcome run _ ih =>
      have first := one a b s t same start
      rw [run] at first
      generalize run' : (step b).run t = other at first
      cases first with
      | @ok _ d _ v result =>
          obtain ⟨d, more⟩ := d
          obtain ⟨same', rfl, behind⟩ := result
          exact ih (there.more run') same' behind

end Loop

end Sides

namespace Lockstep

open Sides

variable (L : Lockstep S)
include L

section Steps

variable {Q : γ → δ → State → State → Prop} {kind : Kind}

theorem check_eq (kind : Kind) (here : S.Here s t) : t.check kind = s.check kind := by
  rw [State.check, State.check, L.kind here]

theorem checkPastNewlines (kind : Kind) (here : S.Here s t) :
    t.checkPastNewlines kind = s.checkPastNewlines kind := by
  rw [State.checkPastNewlines_eq, State.checkPastNewlines_eq]
  exact L.check_eq kind (L.skipNewlines (L.late here))

theorem alike_refuse {Q : α → β → State → State → Prop} (cause : ParseCause) :
    S.Alike Q (ParseM.refuse cause) (ParseM.refuse cause) :=
  fun _ _ here => .failed (L.refuse cause here)

theorem alike_check (kind : Kind) {n : Bool → ParseM γ} {n' : Bool → ParseM δ}
    (next : ∀ found, S.Alike Q (n found) (n' found)) :
    S.Alike Q (check kind >>= n) (check kind >>= n') := by
  intro s t here
  rw [run_bind_ok (run_check kind s), run_bind_ok (run_check kind t), L.check_eq kind here]
  exact next _ s t here

theorem run_advance (here : S.Here s t) (same : s.peek.kind = kind) (solid : kind.isSolid = true) :
    S.Gives (S.Both (S.Token kind)) (ParseM.advance.run s) (ParseM.advance.run t) := by
  subst same
  exact .ok ⟨⟨rfl, L.token here solid⟩, L.advance here solid⟩

/-- A token that has to come next is the one consumed last from then on. -/
theorem alike_expect_last (solid : kind.isSolid = true) (what : Expected) :
    S.Alike (fun a b s t => S.Token kind a b ∧ S.Spans s.last.span t.last.span ∧ S.Here s t)
      (expect kind what) (expect kind what) := by
  intro s t here
  rw [run_expect, run_expect, L.check_eq kind here]
  by_cases found : s.check kind = true
  · have same : s.peek.kind = kind := of_decide_eq_true found
    have solid' : s.peek.kind.isSolid = true := same ▸ solid
    rw [if_pos found, if_pos found]
    exact .ok ⟨⟨same, L.token here solid'⟩, L.last here solid', L.advance here solid'⟩
  · rw [if_neg found, if_neg found]
    exact .failed (L.refuse _ here)

theorem alike_expect (solid : kind.isSolid = true) (what : Expected) :
    S.Alike (S.Both (S.Token kind)) (expect kind what) (expect kind what) :=
  (L.alike_expect_last solid what).imp fun _ _ _ _ known => ⟨known.1, known.2.2⟩

theorem alike_eat (solid : kind.isSolid = true) {n : Bool → ParseM γ} {n' : Bool → ParseM δ}
    (next : ∀ found, S.Alike Q (n found) (n' found)) :
    S.Alike Q (eat kind >>= n) (eat kind >>= n') := by
  intro s t here
  rw [run_bind, run_bind, run_eat, run_eat, L.check_eq kind here]
  by_cases found : s.check kind = true
  · have same : s.peek.kind = kind := of_decide_eq_true found
    rw [if_pos found, if_pos found]
    exact next true _ _ (L.advance here (same ▸ solid))
  · rw [if_neg found, if_neg found]
    exact next false _ _ here

theorem alike_skipNewlines {n : PUnit → ParseM γ} {n' : PUnit → ParseM δ}
    (next : S.Alike Q (n ⟨⟩) (n' ⟨⟩)) :
    S.Alike Q (ParseM.skipNewlines >>= n) (ParseM.skipNewlines >>= n') :=
  fun _ _ here => next _ _ (L.skipNewlines (L.late here))

/-- A node over the tokens from its first one up to the one consumed last. -/
theorem alike_close {R : α → α → Prop} {first first' : Token} (alike : S.Tokens first first')
    {node node' : Span → α}
    (same : ∀ span span', S.Spans span span' → R (node span) (node' span')) :
    S.Alike (S.Both R) (get >>= fun s => pure (node (s.spanFrom first)))
      (get >>= fun s => pure (node' (s.spanFrom first'))) := by
  apply alike_get
  intro s t here
  exact .ok ⟨same _ _ (L.spanFrom (L.late here) alike), here⟩

/-- A rule that starts with a mark it may lack and then a name starts with a token that is alike on
both sides. -/
theorem run_marked (here : S.Here s t) {mark : Kind} (solid : mark.isSolid = true) (what : Expected)
    {n n' : Bool → Token → ParseM α} {Q : α → α → State → State → Prop}
    (next : S.Tokens s.peek t.peek → ∀ found a b, S.Token .identifier a b →
      S.Alike Q (n found a) (n' found b)) :
    S.Gives Q ((eat mark >>= fun found => expect .identifier what >>= n found).run s)
      ((eat mark >>= fun found => expect .identifier what >>= n' found).run t) := by
  rw [run_bind, run_bind, run_eat, run_eat, L.check_eq mark here]
  by_cases marked : s.check mark = true
  · have same : s.peek.kind = mark := of_decide_eq_true marked
    have solid' : s.peek.kind.isSolid = true := same ▸ solid
    rw [if_pos marked, if_pos marked]
    have behind := L.advance here solid'
    exact (L.alike_expect rfl what).bind (next (L.token here solid') true) _ _ behind
  · rw [if_neg marked, if_neg marked]
    dsimp only
    by_cases named : s.check .identifier = true
    · have same : s.peek.kind = .identifier := of_decide_eq_true named
      have first := L.token here (by rw [same]; rfl)
      exact (L.alike_expect rfl what).bind (next first false) _ _ here
    · have failed (k : Token → ParseM α) (k' : Token → ParseM α) :
          S.Gives Q ((expect .identifier what >>= k).run s)
            ((expect .identifier what >>= k').run t) := by
        rw [run_bind, run_bind, run_expect, run_expect, L.check_eq _ here, if_neg named,
          if_neg named]
        exact .failed (L.refuse _ here)
      exact failed _ _

end Steps

section Loop

variable {R : α → α → Prop} {step : α → ParseM (α × Bool)}

theorem alike_repeating {l : Bool} (progresses : ∀ a, Progresses (step a))
    (climbs : ∀ a, Climbs l (step a))
    (one : ∀ a b, R a b → S.Alike (S.Both fun c d => R c.1 d.1 ∧ d.2 = c.2) (step a) (step b))
    {a b : α} (same : R a b) : S.Alike (S.Both R) (repeating step a) (repeating step b) := by
  intro s t here
  have closed := L.closed (L.late here)
  refine Gives.of_loops (P := S.Here) ?_ (loops_of_progresses progresses climbs a closed.1)
    (loops_of_progresses progresses climbs b closed.2) same here
  intro a b s t same here
  refine (one a b same s t here).imp fun c d u v both => ⟨both.1.1, both.1.2, ?_⟩
  split
  · exact both.2
  · exact both.2

end Loop

section Lists

variable {R : α → α → Prop} {item : ParseM α}

theorem alike_itemLink (h : S.Alike (S.Both R) item item) (as bs : List α)
    (same : List.Forall₂ R as bs) :
    S.Alike (S.Both fun c d => List.Forall₂ R c.1 d.1 ∧ d.2 = c.2) (itemLink item as)
      (itemLink item bs) := by
  apply h.bind
  intro a b same'
  apply L.alike_skipNewlines
  apply L.alike_eat rfl
  intro comma
  cases comma with
  | true =>
      apply L.alike_skipNewlines
      exact alike_pure ⟨.cons same' same, rfl⟩
  | false => exact alike_pure ⟨.cons same' same, rfl⟩

/-- Behind a list in parentheses the closing one is the token consumed last. -/
theorem alike_inParens {l : Bool} (h : S.Alike (S.Both R) item item) (returns : Returns l item)
    (closing : Expected) :
    S.Alike (fun as bs s t => List.Forall₂ R as bs ∧ S.Spans s.last.span t.last.span ∧ S.Here s t)
      (inParens item closing) (inParens item closing) := by
  have close : ∀ as bs : List α, List.Forall₂ R as bs →
      S.Alike (fun as bs s t => List.Forall₂ R as bs ∧ S.Spans s.last.span t.last.span ∧ S.Here s t)
        (expect .rParen closing >>= fun _ => pure as.reverse)
        (expect .rParen closing >>= fun _ => pure bs.reverse) := by
    intro as bs same s t here
    apply (L.alike_expect_last rfl closing s t here).bind
    intro _ _ u v known
    exact .ok ⟨List.forall₂_reverse_iff.mpr same, known.2⟩
  apply L.alike_skipNewlines
  apply L.alike_check
  intro empty
  cases empty with
  | true => exact (alike_pure .nil).bind close
  | false =>
      exact (L.alike_repeating (itemLink_progresses returns)
        (fun as => (itemLink_returns returns as).climbs) (L.alike_itemLink h) .nil).bind close

end Lists

end Lockstep

end Parser

end ScriptLens
