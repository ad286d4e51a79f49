import ScriptLens.Proofs.Parser.Tower
import ScriptLens.Proofs.Print.Reads

/-!
Every expression is read back from its canonical form, at every level of the grammar. The chains of
one level are read link by link: what was printed of the left operand stands before the link, and
the loop goes on with what was read of it.
-/

namespace ScriptLens

open ParseM ScriptLens.Parser

/-- The operators of a level. -/
def opsAt : Nat → Kind → Option BinaryOp
  | 1 => orOp?
  | 2 => andOp?
  | 3 => equalityOp?
  | 4 => comparisonOp?
  | 5 => termOp?
  | 6 => factorOp?
  | _ => fun _ => none

/-- The rule of a level. -/
def ruleAt : Nat → ParseM Expr
  | 0 => assignment rules
  | 1 => disjunction rules
  | 2 => conjunction rules
  | 3 => equality rules
  | 4 => comparison rules
  | 5 => term rules
  | 6 => factor rules
  | 7 => unary rules
  | 8 => postfixed rules
  | _ => primary rules

/-- Whether the rule of a level is a chain of links. -/
def isChain (level : Nat) : Bool := level ∈ [1, 2, 3, 4, 5, 6, 8]

/-- One more link of the chain of a level. -/
def linkAt (level : Nat) : Expr → ParseM (Expr × Bool) :=
  if level = 8 then postfixLink rules else binaryLink (opsAt level) (ruleAt (level + 1))

/-- The level at which a token continues an expression. -/
def continued? : Kind → Option Nat
  | .assign => some 0
  | .kwOr => some 1
  | .kwAnd => some 2
  | .equals | .notEquals => some 3
  | .less | .greater | .lessEqual | .greaterEqual => some 4
  | .plus | .minus => some 5
  | .multiply | .divide | .modulo => some 6
  | .lParen | .dot => some 8
  | _ => none

/-- A token that continues no expression of a level. -/
def Closes (level : Nat) (kind : Kind) : Prop := (continued? kind).all (· < level) = true

instance (level : Nat) (kind : Kind) : Decidable (Closes level kind) :=
  inferInstanceAs (Decidable (_ = true))

theorem Closes.mono {i j : Nat} (le : i ≤ j) {kind : Kind} (h : Closes i kind) : Closes j kind := by
  unfold Closes at *
  cases found : continued? kind with
  | none => rfl
  | some k =>
      rw [found] at h
      simp only [Option.all_some, decide_eq_true_eq] at *
      omega

theorem opsAt_kind (operator : BinaryOp) : opsAt operator.level operator.kind = some operator := by
  cases operator <;> rfl

theorem closes_kind (operator : BinaryOp) : Closes (operator.level + 1) operator.kind := by
  cases operator <;> decide

theorem opsAt_some {level : Nat} {kind : Kind} {operator : BinaryOp}
    (h : opsAt level kind = some operator) : operator.level = level ∧ kind = operator.kind := by
  unfold opsAt at h
  split at h
  case h_7 => cases h
  all_goals
    first
    | unfold orOp? at h
    | unfold andOp? at h
    | unfold equalityOp? at h
    | unfold comparisonOp? at h
    | unfold termOp? at h
    | unfold factorOp? at h
    split at h <;> cases h
    all_goals exact ⟨rfl, rfl⟩

theorem continued?_of_opsAt {level : Nat} {kind : Kind} {operator : BinaryOp}
    (h : opsAt level kind = some operator) : continued? kind = some level := by
  obtain ⟨rfl, rfl⟩ := opsAt_some h
  cases operator <;> rfl

theorem opsAt_none {level : Nat} {kind : Kind} (h : Closes level kind) :
    opsAt level kind = none := by
  cases found : opsAt level kind with
  | none => rfl
  | some operator =>
      rw [Closes, continued?_of_opsAt found] at h
      simp at h

theorem ruleAt_chain {level : Nat} (h : isChain level = true) :
    ruleAt level = chain (ruleAt (level + 1) >>= repeating (linkAt level)) := by
  simp only [isChain, List.mem_cons, List.not_mem_nil, or_false, decide_eq_true_eq] at h
  rcases h with rfl | rfl | rfl | rfl | rfl | rfl | rfl <;> rfl

theorem linkAt_binary (operator : BinaryOp) :
    linkAt operator.level = binaryLink (opsAt operator.level) (ruleAt (operator.level + 1)) := by
  cases operator <;> rfl

/-- A chain ends where no link of its level comes next. -/
theorem linkAt_stop (level : Nat) (e : Expr) :
    Reads (linkAt level e) [] 0 (Closes level) fun result =>
    result.2 = false ∧ result.1.bare = e.bare := by
  unfold linkAt
  split
  · next postfixed =>
      subst postfixed
      refine (reads_eat_other .lParen).skip
        (fun call none => ?_) (by rintro kind closes rfl; cases closes)
      rw [none]
      refine (reads_eat_other .dot).skip
        (fun member none => ?_) (by rintro kind closes rfl; cases closes)
      rw [none]
      exact reads_pure ⟨rfl, rfl⟩
  · intro s tokens rest spells ahead behind depth
    cases spells
    have ahead : s.ahead = rest := ahead
    have none : opsAt level s.peek.kind = none := by
      rw [peek_eq ahead]
      exact opsAt_none behind
    refine .inl ⟨depth, (e, false), s, ?_, ⟨ahead, rfl, rfl, rfl, rfl⟩, rfl, rfl⟩
    rw [binaryLink, run_bind_ok (run_get s)]
    simp only [none]
    rfl

/-- What a rule gives is the printed expression, up to spans. -/
abbrev ReadsExpr (level : Nat) (words : List Word) (cost : Nat) (e : Expr) : Prop :=
  Reads (ruleAt level) words cost (Closes level) fun e' => e'.bare = e.bare

/-- A chain of a level with an expression read so far: the loop goes on behind it. -/
def Opens (level : Nat) (e : Expr) : Prop :=
  ∀ (words : List Word) (c i : Nat) (next : Kind → Prop) (good : Expr → Prop),
    (∀ e', e'.bare = e.bare → Climbing (repeating (linkAt level) e') words c i next good) →
    Leads next (Closes (level + 1)) words →
    Climbing (ruleAt (level + 1) >>= repeating (linkAt level)) (e.wordsAt level ++ words)
      (max (e.costAt level) (e.linksAt level + c)) (e.linksAt level + i) next good

/-- An operand opens a chain of a level that is not its own. -/
theorem opens_of_reads {level : Nat} {e : Expr}
    (h : ReadsExpr (level + 1) (e.wordsAt (level + 1)) (e.costAt (level + 1)) e)
    (other : e.level ≠ level) : Opens level e := by
  intro words c i next good later leads
  have same : (e.level < level + 1) = (e.level < level) := propext ⟨by omega, by omega⟩
  have none : e.linksAt level = 0 := by rw [Expr.linksAt, if_neg other]
  rw [Expr.wordsAt, Expr.costAt] at h
  simp only [same] at h
  rw [none, Nat.zero_add, Nat.zero_add]
  exact h.andThen later leads

theorem reads_of_opens {level : Nat} {e : Expr} (chain : isChain level = true) (h : Opens level e) :
    ReadsExpr level (e.wordsAt level) (e.costAt level) e := by
  have stopped : ∀ e', e'.bare = e.bare →
      Climbing (repeating (linkAt level) e') [] 0 0 (Closes level) fun e'' =>
      e''.bare = e.bare := by
    intro e' same
    refine Climbing.repeating_stop _ ((linkAt_stop level e').weaken ?_ fun _ => id)
    rintro result ⟨done, bare⟩
    exact ⟨done, bare.trans same⟩
  have whole := h [] 0 0 _ _ stopped fun _ closes => closes.mono (Nat.le_succ _)
  have enough : max (e.costAt level) (e.linksAt level + 0) = e.costAt level :=
    Nat.max_eq_left (e.linksAt_le_costAt level)
  rw [List.append_nil, enough] at whole
  rw [ReadsExpr, ruleAt_chain chain]
  exact whole.chain

/-- One more link behind an expression that opens a chain. -/
theorem Opens.link {level : Nat} {e whole : Expr} {words : List Word} {c : Nat} (h : Opens level e)
    (step : ∀ e', e'.bare = e.bare → Climbing (linkAt level e') words (1 + c) 1 (Closes (level + 1))
      fun result => result.2 = true ∧ result.1.bare = whole.bare)
    (head : Heads (Closes (level + 1)) words) (own : whole.level = level)
    (hwords : whole.words = e.wordsAt level ++ words)
    (hcost : whole.cost = max (e.costAt level) (e.linksAt level + (1 + c)))
    (hlinks : whole.links = e.linksAt level + 1) : Opens level whole := by
  intro more d i next good later leads
  have links : whole.linksAt level = e.linksAt level + 1 := by
    rw [← hlinks, ← own, Expr.linksAt_self]
  have chain :=
    h (words ++ more) (max (1 + c) (1 + d)) (1 + i) next good ?_ (head.leads (fun _ => id) more)
  · refine chain.congr ?_ ?_ ?_
    · rw [Expr.wordsAt_of_le (Nat.le_of_eq own.symm), hwords, List.append_assoc]
    · rw [Expr.costAt_of_le (Nat.le_of_eq own.symm), hcost, links]
      omega
    · rw [links]
      omega
  · intro e' same
    exact Climbing.repeating_more (fun e'' => e''.bare = whole.bare) (step e' same) head.ne_nil
      (fun e'' same' => later e'' same') leads (Nat.le_add_right 1 c)

theorem binaryLink_reads (operator : BinaryOp) {left right left' : Expr}
    (same : left'.bare = left.bare)
    (h : ReadsExpr (operator.level + 1) (right.wordsAt (operator.level + 1))
      (right.costAt (operator.level + 1)) right) (span : Span) :
    Climbing (linkAt operator.level left')
      (.token operator.kind operator.text :: right.wordsAt (operator.level + 1))
      (1 + right.costAt (operator.level + 1)) 1 (Closes (operator.level + 1)) fun result =>
      result.2 = true ∧ result.1.bare = (Expr.binary operator left right span).bare := by
  rw [linkAt_binary]
  refine climbing_get fun s kind _ => ?_
  simp only [kind, opsAt_kind]
  refine (reads_advance _ _).word fun _ _ => Climbing.link fun _ => h.wrap ?_
  intro right' same'
  refine ⟨rfl, ?_⟩
  rw [binary, Expr.bare, Expr.bare, same, same']

theorem opens_binary {operator : BinaryOp} {left right : Expr} (span : Span)
    (hl : Opens operator.level left) (hr : ReadsExpr (operator.level + 1)
      (right.wordsAt (operator.level + 1)) (right.costAt (operator.level + 1)) right) :
      Opens operator.level (.binary operator left right span) :=
  hl.link (fun _ same => binaryLink_reads operator same hr span)
    ⟨_, _, _, rfl, closes_kind operator⟩ rfl rfl rfl
    rfl

theorem linkAt_access : linkAt 8 = postfixLink rules := rfl

theorem expression_reads {e : Expr} {words : List Word} {c : Nat} (h : ReadsExpr 0 words c e) :
    Reads (expression rules) words (c + 1) (Closes 0) fun e' => e'.bare = e.bare := by
  rw [expression, rules_assignment]
  exact h.nested

theorem callLink_reads {callee callee' : Expr} (same : callee'.bare = callee.bare)
    {arguments : List Expr}
    (heads : ∀ a ∈ arguments, Heads (fun k => k ≠ .newline ∧ k ≠ .rParen) a.words)
    (h : ∀ a ∈ arguments, ReadsExpr 0 a.words a.cost a) (span : Span) :
    Climbing (linkAt 8 callee') (Word.lParen :: (Expr.listed arguments ++ [Word.rParen]))
      (1 + Expr.listedCost arguments) 1 (Closes 9)
      fun result => result.2 = true ∧ result.1.bare = (Expr.call callee arguments span).bare := by
  have closes : ∀ k, EndsItem k → Closes 0 k := EndsItem.elim (by decide) (by decide)
  have items := inParens_reads Expr.bare Expr.bare arguments (fun a member =>
    (expression_reads (h a member)).weaken (fun _ => id) closes) heads .closeArguments
  rw [linkAt_access]
  refine (reads_eat .lParen "(").word fun call eaten => ?_
  rw [eaten, Expr.listed_eq, Expr.listedCost_eq]
  refine Climbing.link fun _ => (items.weaken (fun _ => id) fun _ _ => trivial).wrapSpan ?_
  intro as s all
  refine ⟨rfl, ?_⟩
  rw [Expr.bare, Expr.bare, Expr.allBare_eq, Expr.allBare_eq, all, same]

theorem memberLink_reads {object object' : Expr} (same : object'.bare = object.bare)
    (property : String) (span : Span) :
    Climbing (linkAt 8 object') [.dot, .token (Expr.nameKind (Expr.isMarked property)) property]
    (1 + 0) 1 (Closes 9) fun result =>
      result.2 = true ∧ result.1.bare = (Expr.member object property span).bare := by
  rw [linkAt_access]
  have dot : Kind.dot ≠ .lParen := by decide
  refine (reads_eat_other .lParen).skip (fun call other => ?_) dot
  rw [other]
  refine (reads_eat .dot ".").word fun member eaten => ?_
  rw [eaten]
  refine Climbing.link (i := 0) fun _ => ?_
  refine climbing_get fun s kind text => ?_
  have named : s.peek.kind = .identifier ∨ s.peek.kind = .builtinVar := by
    rw [kind, Expr.nameKind]
    split
    · exact .inr rfl
    · exact .inl rfl
  simp only [named, if_true]
  refine ((reads_advance _ _).weaken (fun _ => id) fun _ _ => trivial).wrap fun _ _ => ⟨rfl, ?_⟩
  rw [Expr.bare, Expr.bare, same, text]

/-- Kinds of tokens that an operand of a sign can start with. -/
def startsOperand : Kind → Bool
  | .kwTrue | .kwFalse | .kwNull | .number | .string | .identifier | .builtinVar | .lParen => true
  | _ => false

/-- Kinds of tokens that an expression can start with. -/
def startsExpr (kind : Kind) : Bool := startsOperand kind || kind = .kwNot || kind = .minus

theorem startsExpr_of_operand {kind : Kind} (h : startsOperand kind = true) :
    startsExpr kind = true := by
  rw [startsExpr, h]
  rfl

theorem heads_wordsAt {p : Kind → Bool} (opening : p .lParen = true) (level : Nat) {e : Expr}
    (h : level ≤ e.level → Heads (p · = true) e.words) : Heads (p · = true) (e.wordsAt level) := by
  by_cases inside : e.level < level
  · rw [Expr.wordsAt_of_lt inside]
    exact ⟨_, _, _, rfl, opening⟩
  · rw [Expr.wordsAt_of_le (Nat.le_of_not_lt inside)]
    exact h (Nat.le_of_not_lt inside)

/-- An expression of the two tightest levels starts like an operand of a sign. -/
theorem words_heads_operand {e : Expr} (tight : 8 ≤ e.level) :
    Heads (startsOperand · = true) e.words := by
  induction e using Expr.tree_induction with
  | assignment target value span => exact absurd tight (by simp [Expr.level])
  | binary operator left right span =>
      have le : operator.level ≤ 6 := operator.level_bounds.2
      exact absurd tight (by simp only [Expr.level]; omega)
  | unary operator argument span => exact absurd tight (by simp [Expr.level])
  | call callee arguments span ih =>
      exact (heads_wordsAt rfl 8 ih).append _
  | member object property span ih =>
      exact (heads_wordsAt rfl 8 ih).append _
  | literal value raw span =>
      refine ⟨_, _, _, rfl, ?_⟩
      rcases value with _ | _ | (_ | _) | _ <;> rfl
  | name n builtin span =>
      exact ⟨_, _, _, rfl, by cases builtin <;> rfl⟩

theorem words_heads (e : Expr) : Heads (startsExpr · = true) e.words := by
  have operand {e : Expr} (tight : 8 ≤ e.level) : Heads (startsExpr · = true) e.words :=
    (words_heads_operand tight).imp fun _ => startsExpr_of_operand
  induction e using Expr.tree_induction with
  | assignment target value span ih =>
      exact (heads_wordsAt rfl 1 fun _ => ih).append _
  | binary operator left right span ih =>
      exact (heads_wordsAt rfl operator.level fun _ => ih).append _
  | unary operator argument span =>
      exact ⟨_, _, _, rfl, by cases operator <;> rfl⟩
  | call callee arguments span => exact operand (Nat.le_refl 8)
  | member object property span => exact operand (Nat.le_refl 8)
  | literal value raw span => exact operand (Nat.le_succ 8)
  | name n builtin span => exact operand (Nat.le_succ 8)

/-- An expression of one level is read by the rule of the level below. -/
theorem reads_pass {level : Nat} {words : List Word} {c : Nat} {e : Expr} (inside : level < 9)
    (h : ReadsExpr (level + 1) words c e)
    (head : level = 7 → Heads (startsOperand · = true) words) : ReadsExpr level words c e := by
  have wider : ∀ kind, Closes level kind → Closes (level + 1) kind := fun _ closes =>
    closes.mono (Nat.le_succ _)
  by_cases loop : isChain level = true
  · rw [ReadsExpr, ruleAt_chain loop]
    refine (h.andPeek (fun e' same => Climbing.repeating_stop _ ?_) wider).chain
    refine (linkAt_stop level e').weaken ?_ fun _ => id
    rintro result ⟨stopped, bare⟩
    exact ⟨stopped, bare.trans same⟩
  · have remaining : level = 0 ∨ level = 7 := by
      simp only [isChain, List.mem_cons, List.not_mem_nil, or_false, decide_eq_true_eq] at loop
      omega
    rcases remaining with rfl | rfl
    · refine h.andPeek (fun target same => ?_) wider
      refine (reads_check_other .assign).skip
        (fun assigned other => ?_) (by rintro kind closes rfl; cases closes)
      rw [other]
      exact reads_pure same
    · obtain ⟨kind, text, more, rfl, starts⟩ := head rfl
      refine climbing_get fun s here _ => ?_
      have notSigned : s.peek.kind ≠ .kwNot ∧ s.peek.kind ≠ .minus := by
        rw [here]
        constructor <;> rintro rfl <;> cases starts
      dsimp only
      split
      · next sign => exact absurd sign notSigned.1
      · next sign => exact absurd sign notSigned.2
      · exact h.weaken (fun _ => id) wider

theorem reads_descend {top : Nat} {words : List Word} {c : Nat} {e : Expr} (inside : top ≤ 9)
    (h : ReadsExpr top words c e) (head : 7 < top → Heads (startsOperand · = true) words) :
    ∀ level, level ≤ top → ReadsExpr level words c e := by
  induction top with
  | zero =>
      intro level le
      rw [Nat.le_zero.mp le]
      exact h
  | succ top ih =>
      intro level le
      rcases Nat.lt_or_eq_of_le le with lower | rfl
      · have passed := reads_pass (by omega) h fun atSign => head (by omega)
        exact ih (by omega) passed (fun high => head (by omega)) level (by omega)
      · exact h

/-- An expression in parentheses. -/
theorem reads_grouped {e : Expr} (h : ReadsExpr 0 e.words e.cost e) :
    ReadsExpr 9 (Word.lParen :: e.words ++ [Word.rParen]) (e.cost + 1) e := by
  refine climbing_get fun s kind _ => ?_
  simp only [kind]
  refine (reads_advance _ _).word fun _ _ => ?_
  have close : ∀ e' : Expr, e'.bare = e.bare →
      Reads (expect .rParen .closeGroup >>= fun _ => pure e') [.rParen] 0 (Closes 9) fun e' =>
      e'.bare = e.bare :=
    fun e' same =>
      ((reads_expect .rParen ")" .closeGroup).weaken (fun _ => id) fun _ _ => trivial).wrap
      fun _ _ => same
  have closing : Closes 0 .rParen := by decide
  have both := (expression_reads h).andThen close closing
  rw [Nat.max_zero] at both
  exact both

/-- An expression that its own rule reads is read at every level. -/
theorem reads_everywhere {e : Expr} (own : e.level ≤ 9) (h : ReadsExpr e.level e.words e.cost e) :
    ∀ level, level ≤ 9 → ReadsExpr level (e.wordsAt level) (e.costAt level) e := by
  intro level le
  have below := reads_descend own h words_heads_operand
  rcases Nat.lt_or_ge e.level level with outside | inside
  · rw [Expr.wordsAt_of_lt outside, Expr.costAt_of_lt outside]
    have grouped := reads_grouped (below 0 (Nat.zero_le _))
    exact reads_descend (Nat.le_refl 9) grouped (fun _ => ⟨_, _, _, rfl, rfl⟩) level le
  · rw [Expr.wordsAt_of_le inside, Expr.costAt_of_le inside]
    exact below level inside

theorem reads_literal {value : Literal} {raw : String} (span : Span)
    (spelled : value.isSpelled raw = true) :
    ReadsExpr 9 (Expr.literal value raw span).words 0 (.literal value raw span) := by
  refine climbing_get fun s kind text => ?_
  have token : ∀ value', value' = value → Reads (advance >>= fun _ => pure (literal s.peek value'))
      [.token value.kind raw] 0 (Closes 9) fun e =>
      e.bare = (Expr.literal value raw span).bare := by
    rintro value' rfl
    refine ((reads_advance _ _).weaken (fun _ => id) fun _ _ => trivial).wrap fun _ _ => ?_
    rw [literal, Expr.bare, Expr.bare, text]
  rcases value with number | string | (_ | _) | _
  all_goals simp only [Literal.kind] at kind
  all_goals simp only [kind]
  · exact token _ (by rw [text, of_decide_eq_true spelled])
  · exact token _ (by rw [text, of_decide_eq_true spelled])
  all_goals exact token _ rfl

theorem reads_name (n : String) (builtin : Bool) (span : Span) :
    ReadsExpr 9 (Expr.name n builtin span).words 0 (.name n builtin span) := by
  refine climbing_get fun s kind text => ?_
  have token : Reads (advance >>= fun _ => pure (Expr.name s.peek.text builtin s.peek.span))
      [.token (Expr.nameKind builtin) n] 0 (Closes 9) fun e =>
      e.bare = (Expr.name n builtin span).bare := by
    refine ((reads_advance _ _).weaken (fun _ => id) fun _ _ => trivial).wrap fun _ _ => ?_
    rw [Expr.bare, Expr.bare, text]
  cases builtin with
  | false =>
      have plain : s.peek.kind = .identifier := kind
      simpa only [plain] using token
  | true =>
      have marked : s.peek.kind = .builtinVar := kind
      simpa only [marked] using token

theorem reads_unary (operator : UnaryOp) {argument : Expr}
    (h : ReadsExpr 7 (argument.wordsAt 7) (argument.costAt 7) argument) (span : Span) :
    ReadsExpr 7 (Expr.unary operator argument span).words (Expr.unary operator argument span).cost
      (.unary operator argument span) := by
  refine climbing_get fun s kind _ => ?_
  have signed : Reads (advance >>= fun _ => nested rules.unary >>= fun argument' =>
      pure (Expr.unary operator argument' (s.peek.span.cover argument'.span)))
      (.token operator.kind operator.text :: argument.wordsAt 7) (argument.costAt 7 + 1) (Closes 7)
      fun e => e.bare = (Expr.unary operator argument span).bare := by
    rw [rules_unary]
    refine (reads_advance _ _).word fun _ _ => h.nested.wrap fun argument' same => ?_
    rw [Expr.bare, Expr.bare, same]
  cases operator with
  | not =>
      have sign : s.peek.kind = .kwNot := kind
      simp only [sign]
      exact signed
  | negate =>
      have sign : s.peek.kind = .minus := kind
      simp only [sign]
      exact signed

theorem isTarget_bare (e : Expr) : e.bare.isTarget = e.isTarget := by
  cases e <;> simp [Expr.bare, Expr.isTarget]

theorem reads_assignment {target value : Expr} (assignable : target.isTarget = true)
    (ht : ReadsExpr 1 (target.wordsAt 1) (target.costAt 1) target)
    (hv : ReadsExpr 0 value.words value.cost value) (span : Span) :
    ReadsExpr 0 (Expr.assignment target value span).words (Expr.assignment target value span).cost
      (.assignment target value span) := by
  have assigns : Closes 1 .assign := by decide
  refine ht.andThen (fun target' same => ?_) assigns
  refine (reads_check .assign).skip (fun assigned here => ?_) rfl
  have same' : target'.isTarget = true := by rw [← isTarget_bare, same, isTarget_bare, assignable]
  rw [here, if_pos rfl, if_pos same', rules_assignment]
  refine (reads_advance _ _).word fun _ _ => hv.nested.wrap fun value' same'' => ?_
  rw [Expr.bare, Expr.bare, same, same'']

/-- What reading back means: at every level, and as the start of every chain. -/
structure ReadBack (e : Expr) : Prop where
  reads : ∀ level, level ≤ 9 → ReadsExpr level (e.wordsAt level) (e.costAt level) e
  opens : ∀ level, isChain level = true → Opens level e

namespace ReadBack

variable {e : Expr}

theorem of_reads (bound : e.level ≤ 9) (h : ReadsExpr e.level e.words e.cost e)
    (own : isChain e.level = true → Opens e.level e) : ReadBack e := by
  have reads := reads_everywhere bound h
  refine ⟨reads, ?_⟩
  intro level loop
  by_cases same : e.level = level
  · rw [← same] at loop ⊢
    exact own loop
  · have le : level + 1 ≤ 9 := by
      simp only [isChain, List.mem_cons, List.not_mem_nil, or_false, decide_eq_true_eq] at loop
      omega
    exact opens_of_reads (reads (level + 1) le) same

theorem of_opens (loop : isChain e.level = true) (h : Opens e.level e) : ReadBack e := by
  have bound : e.level ≤ 9 := by
    simp only [isChain, List.mem_cons, List.not_mem_nil, or_false, decide_eq_true_eq] at loop
    omega
  have reads := reads_of_opens loop h
  rw [Expr.wordsAt_of_le (Nat.le_refl _), Expr.costAt_of_le (Nat.le_refl _)] at reads
  exact of_reads bound reads fun _ => h

theorem words (h : ReadBack e) : ReadsExpr 0 e.words e.cost e := by
  have reads := h.reads 0 (Nat.zero_le 9)
  rw [Expr.wordsAt_of_le (Nat.zero_le _), Expr.costAt_of_le (Nat.zero_le _)] at reads
  exact reads

end ReadBack

theorem isChain_level (operator : BinaryOp) : isChain operator.level = true := by
  cases operator <;> rfl

/-- Every expression is read back. -/
theorem readBack (e : Expr) (wf : e.wellFormed = true) : ReadBack e := by
  induction e using Expr.tree_induction with
  | assignment target value span iht ihv =>
      simp only [Expr.wellFormed, Bool.and_eq_true] at wf
      have reads := reads_assignment wf.1.1 ((iht wf.1.2).reads 1 (by decide)) (ihv wf.2).words span
      exact .of_reads (Nat.zero_le 9) reads fun loop => by cases loop
  | binary operator left right span ihl ihr =>
      simp only [Expr.wellFormed, Bool.and_eq_true] at wf
      have le : operator.level + 1 ≤ 9 := by
        have := operator.level_bounds.2
        omega
      have loop := isChain_level operator
      exact .of_opens loop (opens_binary span ((ihl wf.1).opens _ loop) ((ihr wf.2).reads _ le))
  | unary operator argument span ih =>
      simp only [Expr.wellFormed] at wf
      have reads := reads_unary operator ((ih wf).reads 7 (by decide)) span
      have bound : 7 ≤ 9 := by decide
      exact .of_reads bound reads fun loop => by cases loop
  | call callee arguments span ihc iha =>
      simp only [Expr.wellFormed, Bool.and_eq_true] at wf
      have heads : ∀ a ∈ arguments, Heads (fun k => k ≠ .newline ∧ k ≠ .rParen) a.words := by
        intro a _
        refine (words_heads a).imp ?_
        intro kind starts
        constructor <;> rintro rfl <;> cases starts
      have args : ∀ a ∈ arguments, ReadsExpr 0 a.words a.cost a := by
        intro a member
        exact (iha a member (Expr.mem_wellFormed wf.2 member)).words
      have opens := ((ihc wf.1).opens 8 rfl).link
        (fun _ same => callLink_reads same heads args span) ⟨_, _, _, rfl, rfl⟩ rfl rfl rfl rfl
      exact .of_opens rfl opens
  | member object property span ih =>
      simp only [Expr.wellFormed, Bool.and_eq_true] at wf
      have opens := ((ih wf.1).opens 8 rfl).link
        (fun _ same => memberLink_reads same property span) ⟨_, _, _, rfl, rfl⟩ rfl rfl rfl rfl
      exact .of_opens rfl opens
  | literal value raw span =>
      simp only [Expr.wellFormed, Bool.and_eq_true] at wf
      exact .of_reads (Nat.le_refl 9) (reads_literal span wf.2) fun loop => by cases loop
  | name n builtin span =>
      exact .of_reads (Nat.le_refl 9) (reads_name n builtin span) fun loop => by cases loop

end ScriptLens
