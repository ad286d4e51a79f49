import ScriptLens.Proofs.Depth.Height
import ScriptLens.Proofs.Lockstep.Alone
import ScriptLens.Proofs.Parser.Tower

/-!
How tall a tree the parser can build with some levels left. A chain gives back its links when it
ends, but what it built stays, and the next looser chain goes on from there with all levels again:
seven chains stand behind one operand, and only the parentheses around the whole take a level that
stays taken.
-/

namespace ScriptLens

open ParseM ScriptLens.Parser

namespace ParseM

variable {α β : Type} {b : Nat}

/-- With `b` levels left, the rule gives something good with regard to the levels then left. -/
def Yields (b : Nat) (m : ParseM α) (good : Nat → α → Prop) : Prop :=
  ∀ s a t, s.depth + b = maxDepth → m.run s = (.ok a, t) → ∃ c, t.depth + c = maxDepth ∧ good c a

/-- A rule that leaves as many levels as it found. -/
def Keeps (b : Nat) (m : ParseM α) (good : α → Prop) : Prop := Yields b m fun c a => c = b ∧ good a

theorem Yields.bind {m : ParseM α} {f : α → ParseM β} {good : Nat → α → Prop}
    {good' : Nat → β → Prop} (hm : Yields b m good) (hf : ∀ c a, good c a → Yields c (f a) good') :
    Yields b (m >>= f) good' := by
  intro s a t left run
  rw [run_bind] at run
  cases first : m.run s with
  | mk result u =>
      rw [first] at run
      cases result with
      | error e => cases run
      | ok x =>
          obtain ⟨c, left', good⟩ := hm s x u left first
          exact hf c x good u a t left' run

theorem Keeps.bind {m : ParseM α} {f : α → ParseM β} {good : α → Prop} {good' : Nat → β → Prop}
    (hm : Keeps b m good) (hf : ∀ a, good a → Yields b (f a) good') : Yields b (m >>= f) good' := by
  refine Yields.bind hm ?_
  rintro c a ⟨rfl, holds⟩
  exact hf a holds

theorem Yields.imp {m : ParseM α} {good good' : Nat → α → Prop} (h : Yields b m good)
    (imp : ∀ c a, good c a → good' c a) : Yields b m good' := by
  intro s a t left run
  obtain ⟨c, left', holds⟩ := h s a t left run
  exact ⟨c, left', imp c a holds⟩

theorem Keeps.imp {m : ParseM α} {good good' : α → Prop} (h : Keeps b m good)
    (imp : ∀ a, good a → good' a) : Keeps b m good' :=
  Yields.imp h fun _ a holds => ⟨holds.1, imp a holds.2⟩

theorem Returns.keeps {m : ParseM α} (h : Returns true m) : Keeps b m fun _ => True := by
  intro s a t left run
  have depth := (h s).2
  rw [run] at depth
  exact ⟨b, by rw [depth, left], rfl, trivial⟩

theorem Returns.yields_bind {m : ParseM α} {f : α → ParseM β} {good : Nat → β → Prop}
    (hm : Returns true m) (hf : ∀ a, Yields b (f a) good) : Yields b (m >>= f) good :=
  Keeps.bind hm.keeps fun a _ => hf a

theorem yields_pure {a : α} {good : Nat → α → Prop} (h : good b a) : Yields b (pure a) good := by
  intro s a' t left run
  cases run
  exact ⟨b, left, h⟩

theorem keeps_pure {a : α} {good : α → Prop} (h : good a) : Keeps b (pure a) good :=
  yields_pure ⟨rfl, h⟩

theorem yields_get {f : State → ParseM β} {good : Nat → β → Prop} (h : ∀ s, Yields b (f s) good) :
    Yields b (get >>= f) good :=
  fun s => h s s

theorem yields_refuse {cause : ParseCause} {good : Nat → α → Prop} :
    Yields b (refuse cause) good := by
  intro s a t left run
  cases run

/-- One level is needed, and is back afterwards. -/
theorem keeps_nested {m : ParseM α} {good : α → Prop} (h : ∀ c, b = c + 1 → Keeps c m good) :
    Keeps b (nested m) good := by
  intro s a t left run
  obtain ⟨below, u, inside, rfl⟩ := run_nested_eq_ok run
  obtain ⟨c, rfl⟩ : ∃ c, b = c + 1 := ⟨b - 1, by omega⟩
  have entered : s.depth + 1 + c = maxDepth := by omega
  obtain ⟨d, left', rfl, holds⟩ := h c rfl { s with depth := s.depth + 1 } a u entered inside
  have back : u.depth - 1 + (d + 1) = maxDepth := by omega
  exact ⟨d + 1, back, rfl, holds⟩

/-- One level is taken and stays taken. -/
theorem yields_link {f : PUnit → ParseM β} {good : Nat → β → Prop}
    (h : ∀ c a, b = c + 1 → Yields c (f a) good) : Yields b (link >>= f) good := by
  intro s a t left run
  rw [run_bind, run_link] at run
  by_cases full : maxDepth ≤ s.depth
  · rw [if_pos full] at run
    cases run
  · rw [if_neg full] at run
    obtain ⟨c, rfl⟩ : ∃ c, b = c + 1 := ⟨b - 1, by omega⟩
    have entered : s.depth + 1 + c = maxDepth := by omega
    exact h c ⟨⟩ rfl { s with depth := s.depth + 1 } a t entered run

theorem Yields.chain {m : ParseM α} {good : α → Prop} (h : Yields b m fun _ a => good a) :
    Keeps b (chain m) good := by
  intro s a t left run
  obtain ⟨u, inside, rfl⟩ := run_chain_eq_ok run
  obtain ⟨_, _, holds⟩ := h s a u left inside
  exact ⟨b, left, rfl, holds⟩

/-- What every round keeps holds at the end. -/
theorem yields_repeating {step : α → ParseM (α × Bool)} (good : Nat → α → Prop)
    (h : ∀ c a, good c a → Yields c (step a) fun d result => good d result.1) (b : Nat) (a : α)
    (start : good b a) : Yields b (repeating step a) good := by
  intro s a' t left run
  replace run := rounds_of_run run
  generalize ended : (Except.ok a', t) = outcome at run
  induction run generalizing b with
  | failed => cases ended
  | stopped run _ =>
      cases ended
      exact h b _ start _ _ t left run
  | again run _ _ ih =>
      obtain ⟨c, left', holds⟩ := h b _ start _ _ _ left run
      exact ih c holds left' ended

end ParseM

namespace Parser

/-- The greatest height of an operand that the parser builds with some levels left. -/
def reach : Nat → Nat
  | 0 => 1
  | b + 1 => reach b + 7 * b

theorem reach_mono {c b : Nat} (le : c ≤ b) : reach c ≤ reach b := by
  induction le with
  | refl => exact Nat.le_refl _
  | step _ ih => exact Nat.le_trans ih (Nat.le_add_right _ _)

/-- Each of the seven chains adds the levels, over all levels: in closed form. -/
theorem two_mul_reach (b : Nat) : 2 * reach (b + 1) = 7 * (b * (b + 1)) + 2 := by
  induction b with
  | zero => rfl
  | succ b ih =>
      have step : reach (b + 1 + 1) = reach (b + 1) + 7 * (b + 1) := rfl
      rw [step, Nat.mul_add, ih, Nat.mul_comm (b + 1), Nat.add_mul (b + 1) 1,
        Nat.add_mul b 1 (b + 1)]
      omega

theorem one_le_reach (b : Nat) : 1 ≤ reach b := reach_mono (Nat.zero_le b)

/-- The greatest height of what stands directly inside a statement; without a level left nothing
does. -/
def room : Nat → Nat
  | 0 => 0
  | b + 1 => reach (b + 1)

theorem room_le_reach (b : Nat) : room b ≤ reach b := by
  cases b with
  | zero => exact Nat.zero_le 1
  | succ b => exact Nat.le_refl _

theorem one_add_room_le (b : Nat) : 1 + room b ≤ room (b + 1) := by
  cases b with
  | zero => exact Nat.le_refl 1
  | succ b =>
      have step : reach (b + 2) = reach (b + 1) + 7 * (b + 1) := rfl
      simp only [room, step]
      omega

/-- The greatest height of a statement one level down. -/
def storey : Nat → Nat
  | 0 => 0
  | b + 1 => 1 + room b

theorem storey_le_room (b : Nat) : storey b ≤ room b := by
  cases b with
  | zero => exact Nat.le_refl 0
  | succ b => exact one_add_room_le b

end Parser

/-- A parser with `b` levels left. -/
def Parser.LevelsLeft (b : Nat) (s : State) : Prop := s.Closed ∧ s.depth + b = maxDepth

/-- How tall the trees are that the rules of a level build with `b` levels left. -/
structure Level.Reaches (inner : Level) (b : Nat) : Prop where
  assignment : Keeps b inner.assignment fun e => e.height ≤ reach (b + 1)
  disjunction : Keeps b inner.disjunction fun e => e.height ≤ reach (b + 1)
  unary : Keeps b inner.unary fun e => e.height ≤ reach b + b
  ifChain : Ensures (AtToken (LevelsLeft b)) inner.ifChain fun chain =>
    Stmt.chainHeight chain ≤ 1 + room b
  statement : Ensures (LevelsLeft b) inner.statement fun s => s.height ≤ 1 + room b

namespace Parser

theorem inParens_keeps {α : Type} {b : Nat} {item : ParseM α} {good : α → Prop}
    (h : Keeps b item good)
    (closing : Expected) : Keeps b (inParens item closing) fun items => ∀ a ∈ items, good a := by
  have step : ∀ c (items : List α), (c = b ∧ ∀ a ∈ items, good a) →
      Yields c (itemLink item items) fun d result => d = b ∧ ∀ a ∈ result.1, good a := by
    rintro c items ⟨rfl, all⟩
    refine Keeps.bind h fun a here => returns_skipNewlines.yields_bind fun _ => ?_
    refine (returns_eat .comma).yields_bind fun more => ?_
    have both : ∀ x ∈ a :: items, good x := List.forall_mem_cons.mpr ⟨here, all⟩
    split
    · exact returns_skipNewlines.yields_bind fun _ => yields_pure ⟨rfl, both⟩
    · exact yields_pure ⟨rfl, both⟩
  have close : ∀ items : List α, (∀ a ∈ items, good a) →
      Keeps b (expect .rParen closing >>= fun _ => pure items.reverse) fun items =>
      ∀ a ∈ items, good a :=
    fun items all => (returns_expect .rParen closing).yields_bind fun _ =>
      keeps_pure fun a member => all a (List.mem_reverse.mp member)
  refine returns_skipNewlines.yields_bind fun _ =>
    (returns_check .rParen).yields_bind fun closed => ?_
  cases closed with
  | true =>
      have none : Keeps b (pure []) fun items : List α => ∀ a ∈ items, good a :=
        keeps_pure (by simp)
      exact Keeps.bind none close
  | false =>
      have some :=
        yields_repeating (fun c items => c = b ∧ ∀ a ∈ items, good a) step b [] ⟨rfl, by simp⟩
      exact Keeps.bind some close

section Rules

variable {inner : Level} {b : Nat} (below : ∀ c < b, inner.Reaches c)
include below

theorem expression_keeps : Keeps b (expression inner) fun e => e.height ≤ room b := by
  refine keeps_nested fun c next => ?_
  subst next
  exact (below c (Nat.lt_succ_self c)).assignment

theorem primary_keeps : Keeps b (primary inner) fun e => e.height ≤ reach b := by
  refine yields_get fun s => ?_
  dsimp only
  split
  case h_8 =>
    refine returns_advance.yields_bind fun _ =>
      Keeps.bind (expression_keeps below) fun e bound => ?_
    exact (returns_expect _ _).yields_bind fun _ =>
      keeps_pure (Nat.le_trans bound (room_le_reach b))
  case h_9 => exact yields_refuse
  all_goals exact returns_advance.yields_bind fun _ => keeps_pure (one_le_reach b)

/-- A call or a member access makes the tree one taller and leaves one level less. -/
theorem postfixLink_yields {c : Nat} (le : c ≤ b) {e : Expr} (h : e.height + c ≤ reach b + b) :
    Yields c (postfixLink inner e) fun d result => d ≤ b ∧ result.1.height + d ≤ reach b + b := by
  refine (returns_eat .lParen).yields_bind fun call => ?_
  split
  · refine yields_link fun d _ next => ?_
    have within : ∀ x < d, inner.Reaches x := fun x less => below x (by omega)
    have lower : reach d ≤ reach b := reach_mono (by omega)
    refine Keeps.bind (inParens_keeps (expression_keeps within) .closeArguments) fun args all => ?_
    have listed : Expr.listedHeight args ≤ room d := Expr.listedHeight_le.mpr all
    have room' := room_le_reach d
    refine yields_get fun s => yields_pure ⟨by omega, ?_⟩
    rw [Expr.height]
    omega
  · refine (returns_eat .dot).yields_bind fun member => ?_
    split
    · refine yields_link fun d _ next => yields_get fun s => ?_
      dsimp only
      split
      · refine returns_advance.yields_bind fun _ => yields_pure ⟨by omega, ?_⟩
        rw [Expr.height]
        omega
      · exact yields_refuse
    · exact yields_pure ⟨le, h⟩

theorem postfixed_keeps : Keeps b (postfixed inner) fun e => e.height ≤ reach b + b := by
  refine Yields.chain (Keeps.bind (primary_keeps below) fun e bound => ?_)
  have links := yields_repeating (fun c e => c ≤ b ∧ e.height + c ≤ reach b + b)
    (fun c e h => postfixLink_yields below h.1 h.2) b e ⟨Nat.le_refl b, by omega⟩
  refine Yields.imp links fun c e holds => ?_
  have height := holds.2
  omega

theorem unary_keeps : Keeps b (unary inner) fun e => e.height ≤ reach b + b := by
  have signed : ∀ (t : Token) (operator : UnaryOp),
      Keeps b (advance >>= fun _ => nested inner.unary >>= fun argument =>
      pure (Expr.unary operator argument (t.span.cover argument.span))) fun e =>
          e.height ≤ reach b + b := by
    intro t operator
    refine returns_advance.yields_bind fun _ => ?_
    have argument : Keeps b (nested inner.unary) fun e => 1 + e.height ≤ reach b + b := by
      refine keeps_nested fun c next => ?_
      subst next
      have lower : reach c ≤ reach (c + 1) := reach_mono (Nat.le_succ c)
      refine (below c (Nat.lt_succ_self c)).unary.imp fun e height => ?_
      omega
    refine Keeps.bind argument fun e bound => keeps_pure ?_
    rw [Expr.height]
    exact bound
  refine yields_get fun s => ?_
  dsimp only
  split
  · exact signed _ .not
  · exact signed _ .negate
  · exact postfixed_keeps below

end Rules

/-- An expression within a bound; a target of an assignment is at most a chain of member
accesses. -/
def Fits (bound b : Nat) (e : Expr) : Prop :=
  e.height ≤ bound ∧ (e.isTarget = true → e.height ≤ reach b + b)

/-- A chain of operators adds one to the height for each level that is left. -/
theorem leftChain_keeps {b : Nat} (k : Nat) (operator? : Kind → Option BinaryOp)
    {operand : ParseM Expr} (h : ∀ c ≤ b, Keeps c operand (Fits (reach c + k * c) c)) :
    ∀ c ≤ b, Keeps c (leftChain operator? operand) (Fits (reach c + (k + 1) * c) c) := by
  intro b' within
  let good : Nat → Expr → Prop := fun c e =>
    c ≤ b' ∧ e.height + c ≤ reach b' + (k + 1) * b' ∧ (e.isTarget = true → e.height ≤ reach b' + b')
  have more : (k + 1) * b' = k * b' + b' := Nat.succ_mul k b'
  have step : ∀ c e, good c e → Yields c (binaryLink operator? operand e) fun d result =>
      good d result.1 := by
    rintro c left ⟨le, height, target⟩
    refine yields_get fun s => ?_
    split
    · exact yields_pure ⟨le, height, target⟩
    · refine returns_advance.yields_bind fun _ => yields_link fun d _ next => ?_
      refine Keeps.bind (h d (by omega)) fun right fits => yields_pure ⟨by omega, ?_, nofun⟩
      have lower : reach d ≤ reach b' := reach_mono (by omega)
      have fewer : k * d ≤ k * b' := Nat.mul_le_mul_left k (by omega)
      have right' := fits.1
      change 1 + max left.height right.height + d ≤ reach b' + (k + 1) * b'
      omega
  refine Yields.chain (Keeps.bind (h b' within) fun left fits => ?_)
  have first := fits.1
  have links := yields_repeating good step b' left ⟨Nat.le_refl b', by omega, fits.2⟩
  refine Yields.imp links fun c e holds => ⟨?_, holds.2.2⟩
  have height := holds.2.1
  omega

section Chains

variable {inner : Level} {b : Nat} (below : ∀ c < b, inner.Reaches c)
include below

/-- The six chains of operators, one around the other. -/
theorem disjunction_keeps : Keeps b (disjunction inner) (Fits (reach (b + 1)) b) := by
  have operand : ∀ c ≤ b, Keeps c (unary inner) (Fits (reach c + 1 * c) c) := by
    intro c le
    have within : ∀ d < c, inner.Reaches d := fun d less => below d (by omega)
    exact (unary_keeps within).imp fun e height => ⟨by omega, fun _ => height⟩
  have factor := leftChain_keeps 1 factorOp? operand
  have term := leftChain_keeps 2 termOp? factor
  have comparison := leftChain_keeps 3 comparisonOp? term
  have equality := leftChain_keeps 4 equalityOp? comparison
  have conjunction := leftChain_keeps 5 andOp? equality
  exact leftChain_keeps 6 orOp? conjunction b (Nat.le_refl b)

theorem assignment_keeps : Keeps b (assignment inner) fun e => e.height ≤ reach (b + 1) := by
  have value : Keeps b (nested inner.assignment) fun e => e.height ≤ reach b ∧ 1 ≤ b := by
    refine keeps_nested fun c next => ?_
    subst next
    exact (below c (Nat.lt_succ_self c)).assignment.imp fun e height => ⟨height, by omega⟩
  refine Keeps.bind (disjunction_keeps below) fun target fits => ?_
  refine (returns_check .assign).yields_bind fun assigned => ?_
  split
  · split
    · next isTarget =>
        refine returns_advance.yields_bind fun _ => Keeps.bind value fun e bounds => keeps_pure ?_
        have left := fits.2 isTarget
        have step : reach (b + 1) = reach b + 7 * b := rfl
        rw [Expr.height]
        omega
    · exact yields_refuse
  · exact keeps_pure fits.1

end Chains

/-- Parts of statements with `b` levels left, no taller than what stands there may be. -/
def heightParts (b : Nat) : Parts where
  Exprs e _ := e.height ≤ room b
  Chains c _ := Stmt.chainHeight c ≤ room b
  Stmts s _ := s.height ≤ storey b

section Layers

variable {b : Nat}

theorem height_of_body {body body' : List Stmt}
    (h : List.Forall₂ (heightParts b).Stmts body body') : Stmt.bodyHeight body ≤ room b :=
  Stmt.bodyHeight_le.mpr fun s member =>
    Nat.le_trans (forall_of_forall₂ h s member) (storey_le_room b)

theorem height_of_option {e e' : Option Expr} (h : Option.Rel (heightParts b).Exprs e e') :
    Stmt.optionalHeight e ≤ room b := by
  cases h with
  | none => exact Nat.zero_le _
  | some bound => exact bound

theorem height_of_alternate {rest rest' : Alternate} (h : (heightParts b).Alternate rest rest') :
    Stmt.alternateHeight rest ≤ room b := by
  cases h with
  | absent => exact Nat.zero_le _
  | elseIf next => exact next
  | otherwise body => exact height_of_body body

variable {S : Sides}

theorem height_of_chain {c c' : IfChain} (h : (heightParts b).Chain S c c') :
    Stmt.chainHeight c ≤ 1 + room b := by
  cases h with
  | mk test body rest _ =>
      have inside := Nat.max_le.mpr ⟨height_of_body body, height_of_alternate rest⟩
      rw [Stmt.chainHeight]
      exact Nat.add_le_add_left (Nat.max_le.mpr ⟨test, inside⟩) 1

theorem height_of_params {params params' : List Param}
    (h : List.Forall₂ ((heightParts b).Param S) params params') :
    Stmt.paramsHeight params ≤ room b := by
  induction h with
  | nil => exact Nat.zero_le _
  | cons here _ ih => exact Nat.max_le.mpr ⟨height_of_option here.default, ih⟩

/-- A statement is one taller than its parts. -/
theorem height_of_layer {s s' : Stmt} (h : (heightParts b).Layer S s s') :
    s.height ≤ 1 + room b := by
  have one : 1 ≤ 1 + room b := Nat.le_add_right 1 _
  have both {m n : Nat} (first : m ≤ room b) (second : n ≤ room b) : 1 + max m n ≤ 1 + room b :=
    Nat.add_le_add_left (Nat.max_le.mpr ⟨first, second⟩) 1
  cases h with
  | ifs chain => exact height_of_chain chain
  | whileLoop test body _ => exact both test (height_of_body body)
  | forLoop iterable body _ => exact both iterable (height_of_body body)
  | loop count body _ => exact both (height_of_option count) (height_of_body body)
  | classDecl _ body _ => exact Nat.add_le_add_left (height_of_body body) 1
  | function _ params body _ => exact both (height_of_params params) (height_of_body body)
  | returns argument _ => exact Nat.add_le_add_left (height_of_option argument) 1
  | breaks _ => exact one
  | continues _ => exact one
  | hotkey body _ => exact Nat.add_le_add_left (height_of_body body) 1
  | directive _ _ => exact one
  | expression bound => exact Nat.add_le_add_left bound 1

end Layers

theorem stable_levelsLeft (b : Nat) : Stable (LevelsLeft b) where
  closed := And.left
  walk here walk depth := ⟨here.1.walk walk, depth ▸ here.2⟩

/-- Inside a level there is one less left. -/
theorem LevelsLeft.enter {b : Nat} {s : State} (h : LevelsLeft b s) (below : s.depth < maxDepth) :
    ∃ c, b = c + 1 ∧ LevelsLeft c { s with depth := s.depth + 1 } := by
  have left := h.2
  obtain ⟨c, rfl⟩ : ∃ c, b = c + 1 := ⟨b - 1, by omega⟩
  have inside : s.depth + 1 + c = maxDepth := by omega
  exact ⟨c, rfl, h.1, inside⟩

theorem ensures_of_keeps {b : Nat} {α : Type} {m : ParseM α} {good : α → Prop}
    (h : Keeps b m good) : Ensures (LevelsLeft b) m good := by
  intro s a t here run
  obtain ⟨_, _, _, holds⟩ := h s a t here.2 run
  exact holds

/-- What stands directly inside a statement is no taller than there is room. -/
theorem rules_below {b : Nat} (below : ∀ c < b, rules.Reaches c) :
    (heightParts b).Below (alone (LevelsLeft b)) rules := by
  have lower (c : Nat) (next : b = c + 1) : rules.Reaches c := below c (by omega)
  refine (stable_levelsLeft b).below rules_returns rules_tallies
    (ensures_of_keeps (expression_keeps below)) ?disjunction ?ifChain ?statement
  case disjunction =>
    refine ensures_of_keeps (keeps_nested fun c next => ?_)
    subst next
    exact (lower c rfl).disjunction
  case ifChain =>
    rintro s chain t ⟨here, solid⟩ run
    obtain ⟨deep, u, run', _⟩ := run_nested_eq_ok run
    obtain ⟨c, rfl, inside⟩ := here.enter deep
    exact Nat.le_trans ((lower c rfl).ifChain _ chain u ⟨inside, solid⟩ run') (one_add_room_le c)
  case statement =>
    intro s stmt t here run
    obtain ⟨deep, u, run', _⟩ := run_nested_eq_ok run
    obtain ⟨c, rfl, inside⟩ := here.enter deep
    exact (lower c rfl).statement _ stmt u inside run'

/-- The rules of the grammar build no taller trees than the levels left allow. -/
theorem rules_reaches (b : Nat) : rules.Reaches b := by
  induction b using Nat.strongRecOn with
  | _ b below =>
      have parts := rules_below below
      rw [rules_eq_layer]
      exact ⟨assignment_keeps below, (disjunction_keeps below).imp fun _ fits => fits.1,
        unary_keeps below,
        fun s c t here run => height_of_chain
          ((stable_levelsLeft b).ensures_ifChain parts s c t here run),
        fun s stmt t here run => height_of_layer
          ((stable_levelsLeft b).ensures_statement parts s stmt t here run)⟩

end Parser

end ScriptLens
