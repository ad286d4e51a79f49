import ScriptLens.Proofs.Grammar.Sound
import ScriptLens.Proofs.Parser.Tower

/-!
The rules for expressions read every expression: where its tokens are ahead and nothing behind them
continues it, a rule takes all of them and gives the tree that they derive, or it runs out of
levels. A level is taken only behind a token that was read, so that only as many levels can be
missing as there are tokens. Main statement: the parser of expressions is the grammar.
-/

namespace ScriptLens

open ParseM ScriptLens.Parser

namespace Grammar

/-- The state behind some tokens. -/
structure Crossed (s : State) (ts : List Token) (t : State) : Prop extends Taken s ts t where
  last : t.last = ts.getLast?.getD s.last

namespace Crossed

variable {s t u : State} {ts us behind : List Token} {token : Token}

theorem refl : Crossed s [] s := ⟨.refl, rfl⟩

theorem trans (first : Crossed s ts t) (second : Crossed t us u) : Crossed s (ts ++ us) u := by
  refine ⟨first.toTaken.trans second.toTaken, ?_⟩
  rw [second.last, first.last, List.getLast?_append]
  cases us.getLast? <;> rfl

theorem redepth (h : Crossed s ts t) (depth : Nat) : Crossed s ts { t with depth := depth } :=
  ⟨h.toTaken.redepth depth, h.last⟩

theorem rest (h : Crossed s ts t) (ahead : s.ahead = ts ++ behind) : t.ahead = behind :=
  List.append_cancel_left (h.ahead.symm.trans ahead)

theorem advance (ahead : s.ahead = token :: behind) : Crossed s [token] s.advance := by
  rw [State.advance_of_cons ahead]
  exact ⟨⟨ahead, rfl⟩, rfl⟩

theorem skipNewlines (breaks : LineBreaks ts) (ahead : s.ahead = ts ++ behind)
    (other : (behind.headD s.final).kind ≠ .newline) : Crossed s ts s.skipNewlines := by
  have go (ts : List Token) (s : State) (breaks : LineBreaks ts) (ahead : s.ahead = ts ++ behind)
      (other : (behind.headD s.final).kind ≠ .newline) :
      Crossed s ts (State.skipNewlines.go s.ahead s) := by
    induction ts generalizing s with
    | nil =>
        rw [ahead, List.nil_append]
        cases behind with
        | nil => exact .refl
        | cons next behind =>
            have stays : next.kind ≠ .newline := other
            rw [State.skipNewlines.go, if_neg stays]
            exact .refl
    | cons t ts ih =>
        have moved := Crossed.advance (s := s) ahead
        have ahead' : s.advance.ahead = ts ++ behind := moved.rest ahead
        rw [ahead, List.cons_append, State.skipNewlines.go,
          if_pos (breaks t List.mem_cons_self), ← ahead']
        exact moved.trans (ih _ (fun u member => breaks u (List.mem_cons_of_mem t member)) ahead'
          (moved.final ▸ other))
  exact go ts s breaks ahead other

end Crossed

/-- The rule reads tokens, gives a result and keeps no more than some levels, or it fails for lack
of levels. -/
def Succeeds (s : State) (m : ParseM α) (a : α) (ts : List Token) (kept cost : Nat) : Prop :=
  (∃ t, m.run s = (.ok a, t) ∧ Crossed s ts t ∧ t.depth ≤ s.depth + kept) ∨
    ∃ e t, m.run s = (.error e, t) ∧ (e.cause = .nestedTooDeeply ∨ e.cause = .chainTooLong) ∧
    maxDepth < s.depth + cost

section Rules

variable {α β : Type} {s : State} {m : ParseM α} {a : α} {ts us rest : List Token} {token : Token}
  {i j c d : Nat}

theorem Succeeds.mono (h : Succeeds s m a ts i c) (kept : i ≤ j) (cost : c ≤ d) :
    Succeeds s m a ts j d := by
  rcases h with ⟨t, run, crossed, depth⟩ | ⟨e, t, run, cause, short⟩
  · exact .inl ⟨t, run, crossed, by omega⟩
  · exact .inr ⟨e, t, run, cause, by omega⟩

theorem Succeeds.bind {f : α → ParseM β} {b : β} (hm : Succeeds s m a ts i c)
    (hf : ∀ t, Crossed s ts t → Succeeds t (f a) b us j d) :
    Succeeds s (m >>= f) b (ts ++ us) (i + j) (max c (i + d)) := by
  rcases hm with ⟨t, run, crossed, depth⟩ | ⟨e, t, run, cause, short⟩
  · rcases hf t crossed with ⟨u, run', crossed', depth'⟩ | ⟨e, u, run', cause, short⟩
    · exact .inl ⟨u, (run_bind_ok run).trans run', crossed.trans crossed', by omega⟩
    · exact .inr ⟨e, u, (run_bind_ok run).trans run', cause, by omega⟩
  · exact .inr ⟨e, t, run_bind_error run, cause, by omega⟩

/-- A rule that takes no level, then another one. -/
theorem Succeeds.then {f : α → ParseM β} {b : β} (hm : Succeeds s m a ts 0 0)
    (hf : ∀ t, Crossed s ts t → Succeeds t (f a) b us j d) :
    Succeeds s (m >>= f) b (ts ++ us) j d :=
  (hm.bind hf).mono (by omega) (by omega)

/-- A rule that gives back its levels, then another one. -/
theorem Succeeds.before {f : α → ParseM β} {b : β} (hm : Succeeds s m a ts 0 c)
    (hf : ∀ t, Crossed s ts t → Succeeds t (f a) b us j d) (le : c ≤ d) :
    Succeeds s (m >>= f) b (ts ++ us) j d :=
  (hm.bind hf).mono (by omega) (by omega)

/-- A rule whose result is only wrapped. -/
theorem Succeeds.map (h : Succeeds s m a ts i c) (f : α → β) :
    Succeeds s (m >>= fun a => pure (f a)) (f a) ts i c := by
  rcases h with ⟨t, run, crossed, depth⟩ | ⟨e, t, run, cause, short⟩
  · exact .inl ⟨t, run_bind_ok run, crossed, depth⟩
  · exact .inr ⟨e, t, run_bind_error run, cause, short⟩

/-- A rule whose result is wrapped with what the state behind it shows. -/
theorem Succeeds.mapState (h : Succeeds s m a ts i c) {f : α → State → β} {b : β}
    (same : ∀ t, Crossed s ts t → f a t = b) :
    Succeeds s (m >>= fun a => get >>= fun t => pure (f a t)) b ts i c := by
  rcases h with ⟨t, run, crossed, depth⟩ | ⟨e, t, run, cause, short⟩
  · refine .inl ⟨t, ?_, crossed, depth⟩
    rw [run_bind_ok run, ← same t crossed]
    rfl
  · exact .inr ⟨e, t, run_bind_error run, cause, short⟩

/-- A rule that only looks, then another one. -/
theorem Succeeds.look {f : α → ParseM β} {b : β} (run : m.run s = (.ok a, s))
    (hf : Succeeds s (f a) b us j d) : Succeeds s (m >>= f) b us j d := by
  rcases hf with ⟨t, run', crossed, depth⟩ | ⟨e, t, run', cause, short⟩
  · exact .inl ⟨t, (run_bind_ok run).trans run', crossed, depth⟩
  · exact .inr ⟨e, t, (run_bind_ok run).trans run', cause, short⟩

theorem succeeds_pure (s : State) (a : α) : Succeeds s (pure a) a [] 0 0 :=
  .inl ⟨s, rfl, .refl, Nat.le_refl _⟩

theorem succeeds_advance (ahead : s.ahead = token :: rest) :
    Succeeds s advance token [token] 0 0 := by
  refine .inl ⟨s.advance, ?_, .advance ahead, Nat.le_of_eq s.advance_depth⟩
  rw [run_advance, State.peek, ahead]
  rfl

theorem check_of_cons (ahead : s.ahead = token :: rest) (kind : Kind) :
    s.check kind = decide (token.kind = kind) := by
  rw [State.check, State.peek, ahead]
  rfl

theorem check_other {kind : Kind} (ahead : s.ahead = rest)
    (other : (rest.headD s.final).kind ≠ kind) : s.check kind = false := by
  rw [State.check, State.peek, ahead]
  exact decide_eq_false other

theorem succeeds_expect (ahead : s.ahead = token :: rest) {kind : Kind} (same : token.kind = kind)
    (what : Expected) : Succeeds s (expect kind what) token [token] 0 0 := by
  refine .inl ⟨s.advance, ?_, .advance ahead, Nat.le_of_eq s.advance_depth⟩
  rw [run_expect, check_of_cons ahead, if_pos (decide_eq_true same), State.peek, ahead]
  rfl

theorem succeeds_eat (ahead : s.ahead = token :: rest) {kind : Kind} (same : token.kind = kind) :
    Succeeds s (eat kind) true [token] 0 0 := by
  refine .inl ⟨s.advance, ?_, .advance ahead, Nat.le_of_eq s.advance_depth⟩
  rw [run_eat, check_of_cons ahead, if_pos (decide_eq_true same)]

theorem run_eat_other {kind : Kind} (ahead : s.ahead = rest)
    (other : (rest.headD s.final).kind ≠ kind) : (eat kind).run s = (.ok false, s) := by
  rw [run_eat, check_other ahead other]
  rfl

theorem skipNewlines_depth (s : State) : s.skipNewlines.depth = s.depth := by
  have go (ts : List Token) (s : State) : (State.skipNewlines.go ts s).depth = s.depth := by
    induction ts generalizing s with
    | nil => rfl
    | cons t ts ih =>
        rw [State.skipNewlines.go]
        split
        · rw [ih, State.advance_depth]
        · rfl
  exact go s.ahead s

theorem succeeds_skipNewlines (breaks : LineBreaks ts) (ahead : s.ahead = ts ++ rest)
    (other : (rest.headD s.final).kind ≠ .newline) : Succeeds s skipNewlines ⟨⟩ ts 0 0 :=
  .inl ⟨_, run_skipNewlines s, .skipNewlines breaks ahead other,
    Nat.le_of_eq (skipNewlines_depth s)⟩

theorem succeeds_link (s : State) : Succeeds s link ⟨⟩ [] 1 1 := by
  rw [Succeeds, run_link]
  split
  · next deep => exact .inr ⟨_, s, rfl, .inr rfl, by omega⟩
  · exact .inl ⟨_, rfl, Crossed.refl.redepth _, Nat.le_refl _⟩

theorem Succeeds.nested (h : ∀ t, Crossed s [] t → Succeeds t m a ts 0 c) :
    Succeeds s (nested m) a ts 0 (c + 1) := by
  rw [Succeeds, run_nested]
  split
  · next deep => exact .inr ⟨_, s, rfl, .inl rfl, by omega⟩
  · rcases h { s with depth := s.depth + 1 } (Crossed.refl.redepth _) with
      ⟨t, run, crossed, depth⟩ | ⟨e, t, run, cause, short⟩
    · rw [run]
      have entered : t.depth ≤ s.depth + 1 := depth
      exact .inl ⟨_, rfl, ⟨⟨crossed.ahead, crossed.final⟩, crossed.last⟩, by dsimp only; omega⟩
    · rw [run]
      have entered : maxDepth < s.depth + 1 + c := short
      exact .inr ⟨e, _, rfl, cause, by omega⟩

theorem Succeeds.chain (h : Succeeds s m a ts i c) : Succeeds s (chain m) a ts 0 c := by
  rw [Succeeds, run_chain]
  rcases h with ⟨t, run, crossed, _⟩ | ⟨e, t, run, cause, short⟩
  · rw [run]
    exact .inl ⟨_, rfl, crossed.redepth _, Nat.le_refl _⟩
  · rw [run]
    exact .inr ⟨e, _, rfl, cause, short⟩

variable {step : α → ParseM (α × Bool)} {b whole : α}

theorem Succeeds.repeating_stop (h : Succeeds s (step a) (b, false) ts i c) :
    Succeeds s (repeating step a) b ts i c := by
  rcases h with ⟨t, run, crossed, depth⟩ | ⟨e, t, run, cause, short⟩
  · exact .inl ⟨t, run_repeating_stopped run, crossed, depth⟩
  · exact .inr ⟨e, t, run_repeating_failed run, cause, short⟩

theorem Succeeds.repeating_more (h : Succeeds s (step a) (b, true) ts i c) (some : ts ≠ [])
    (later : ∀ t, Crossed s ts t → Succeeds t (repeating step b) whole us j d) :
    Succeeds s (repeating step a) whole (ts ++ us) (i + j) (max c (i + d)) := by
  rcases h with ⟨t, run, crossed, depth⟩ | ⟨e, t, run, cause, short⟩
  · have shorter : t.ahead.length < s.ahead.length := by
      have := List.length_pos_iff.mpr some
      rw [crossed.ahead, List.length_append]
      omega
    rw [Succeeds, run_repeating_again run shorter]
    rcases later t crossed with ⟨u, run', crossed', depth'⟩ | ⟨e, u, run', cause, short⟩
    · exact .inl ⟨u, run', crossed.trans crossed', by omega⟩
    · exact .inr ⟨e, u, run', cause, by omega⟩
  · exact .inr ⟨e, t, run_repeating_failed run, cause, by omega⟩

end Rules

/-- The rule of a level reads tokens as a tree wherever nothing behind them continues it. -/
def ReadsAt (level : Nat) (ts : List Token) (e : Expr) : Prop :=
  ∀ (s : State) (rest : List Token), s.ahead = ts ++ rest → Closes level (rest.headD s.final).kind →
    Succeeds s (ruleAt level) e ts 0 ts.length

/-- The chain of a level begins with tokens as a tree, and the loop goes on behind them. -/
def BeginsAt (level : Nat) (ts : List Token) (e : Expr) : Prop :=
  ∀ (s : State) (us rest : List Token) (whole : Expr) (i c : Nat), s.ahead = ts ++ (us ++ rest) →
    Closes (level + 1) ((us ++ rest).headD s.final).kind →
    (∀ t, Crossed s ts t → Succeeds t (repeating (linkAt level) e) whole us i c) →
    Succeeds s (ruleAt (level + 1) >>= repeating (linkAt level)) whole
    (ts ++ us) (ts.length + i) (ts.length + c)

section Chains

variable {s : State} {level : Nat} {e whole : Expr} {ts vs rest : List Token}

theorem BeginsAt.of_reads (h : ReadsAt (level + 1) ts e) : BeginsAt level ts e := by
  intro s us rest whole i c ahead closes later
  exact ((h s (us ++ rest) ahead closes).bind later).mono (by omega) (by omega)

/-- A chain ends where no link of its level comes next. -/
theorem linkAt_ends (ahead : s.ahead = rest) (closes : Closes level (rest.headD s.final).kind) :
    Succeeds s (linkAt level e) (e, false) [] 0 0 := by
  unfold linkAt
  split
  · next access =>
      subst access
      have call : (rest.headD s.final).kind ≠ .lParen := by
        intro same
        rw [same] at closes
        cases closes
      have member : (rest.headD s.final).kind ≠ .dot := by
        intro same
        rw [same] at closes
        cases closes
      exact .look (run_eat_other ahead call)
        (.look (run_eat_other ahead member) (succeeds_pure s _))
  · refine .look (run_get s) ?_
    have none : opsAt level s.peek.kind = none := by
      rw [State.peek, ahead]
      exact opsAt_none closes
    rw [none]
    exact succeeds_pure s _

theorem ReadsAt.of_begins (chained : isChain level = true) (h : BeginsAt level ts e) :
    ReadsAt level ts e := by
  intro s rest ahead closes
  have stop : ∀ t, Crossed s ts t → Succeeds t (repeating (linkAt level) e) e [] 0 0 :=
      fun t crossed =>
    .repeating_stop (linkAt_ends (crossed.rest ahead) (crossed.final ▸ closes))
  have whole := h s [] rest e 0 0 ahead (closes.mono (Nat.le_succ level)) stop
  rw [List.append_nil] at whole
  rw [ruleAt_chain chained]
  exact whole.chain

/-- One more link behind tokens with which a chain begins. -/
theorem BeginsAt.link (h : BeginsAt level ts e)
    (first : ∃ token more, vs = token :: more ∧ Closes (level + 1) token.kind)
    (step : ∀ (s : State) (rest : List Token), s.ahead = vs ++ rest → Closes (level + 1)
      (rest.headD s.final).kind → Succeeds s (linkAt level e) (whole, true) vs 1 vs.length) :
      BeginsAt level (ts ++ vs) whole := by
  obtain ⟨token, more, rfl, leads⟩ := first
  intro s us rest last i c ahead closes later
  rw [List.append_assoc] at ahead
  have goes : ∀ t, Crossed s ts t → Succeeds t (repeating (linkAt level) e) last
      (token :: more ++ us) (1 + i) (max (token :: more).length (1 + c)) := by
    intro t crossed
    have link := step t (us ++ rest) (crossed.rest ahead) (crossed.final ▸ closes)
    exact link.repeating_more (List.cons_ne_nil _ _) fun u crossed' =>
      later u (crossed.trans crossed')
  rw [← List.append_assoc] at ahead
  rw [List.append_assoc]
  refine (h s (token :: more ++ us) rest last _ _ (by simpa using ahead) leads goes).mono ?_ ?_ <;>
    simp only [List.length_append, List.length_cons] <;> omega

end Chains

section Links

variable {s : State} {e left right : Expr} {ts us behind inside : List Token}
  {sign opening closing dot name : Token} {operator : BinaryOp} {items : List (List Token × Expr)}

theorem binaryLink_succeeds (kind : sign.kind = operator.kind)
    (h : ReadsAt (operator.level + 1) us right) (ahead : s.ahead = sign :: us ++ behind)
    (closes : Closes (operator.level + 1) (behind.headD s.final).kind) :
    Succeeds s (linkAt operator.level left)
    (.binary operator left right (left.span.cover right.span), true) (sign :: us) 1
      (sign :: us).length := by
  have here : s.peek = sign := by rw [State.peek, ahead]; rfl
  have found : opsAt operator.level s.peek.kind = some operator := by rw [here, kind, opsAt_kind]
  rw [linkAt_binary]
  refine .look (run_get s) ?_
  rw [found]
  have signed (t : State) (crossed : Crossed s [sign] t) : Succeeds t (link >>= fun _ =>
      ruleAt (operator.level + 1) >>= fun right => pure (binary operator left right, true))
        (binary operator left right, true) ([] ++ us) (1 + 0) (max 1 (1 + us.length)) := by
    refine (succeeds_link t).bind fun u linked => ?_
    have crossed' : Crossed s [sign] u := crossed.trans linked
    exact (h u behind (crossed'.rest ahead) (crossed'.final ▸ closes)).map fun right =>
      (binary operator left right, true)
  refine ((succeeds_advance ahead).then signed).mono (Nat.le_refl _) ?_
  rw [List.length_cons]
  omega

theorem expression_succeeds (h : ReadsAt 0 ts e) (ahead : s.ahead = ts ++ behind)
    (closes : Closes 0 (behind.headD s.final).kind) :
    Succeeds s (expression rules) e ts 0 (ts.length + 1) := by
  rw [expression, rules_assignment]
  exact .nested fun t crossed => h t behind (crossed.rest ahead) (crossed.final ▸ closes)

/-- What holds of a line break and of the token behind a gap holds of the first token of the gap. -/
theorem headD_breaks {P : Kind → Prop} {final : Token} (breaks : LineBreaks ts)
    (newline : P .newline)
    (h : P (behind.headD final).kind) : P ((ts ++ behind).headD final).kind := by
  cases ts with
  | nil => exact h
  | cons t ts =>
      have kind := breaks t List.mem_cons_self
      simpa [kind] using newline

/-- What the arguments of a call are known to be. -/
def Arguments (items : List (List Token × Expr)) : Prop :=
  ∀ item ∈ items, ReadsAt 0 item.1 item.2 ∧ ∃ t rest, item.1 = t :: rest ∧ startsExpr t.kind = true

theorem Row.head (row : Row LineBreaks items ts) (good : Arguments items) :
    ∃ t rest, ts = t :: rest ∧ t.kind ≠ .newline ∧ t.kind ≠ .rParen := by
  have first {item : List Token × Expr} (starts : ∃ t rest, item.1 = t :: rest ∧
      startsExpr t.kind = true) (more : List Token) :
      ∃ t rest, item.1 ++ more = t :: rest ∧ t.kind ≠ .newline ∧ t.kind ≠ .rParen := by
    obtain ⟨t, rest, same, kind⟩ := starts
    refine ⟨t, rest ++ more, by rw [same, List.cons_append], ?_, ?_⟩ <;> intro other <;>
      rw [other] at kind <;> cases kind
  cases row with
  | last => exact first (good _ List.mem_cons_self).2 _
  | more => exact first (good _ List.mem_cons_self).2 _

/-- The last argument, with what stands before the closing parenthesis. -/
theorem itemLink_last (h : ReadsAt 0 ts e) (breaks : LineBreaks us) (args : List Expr)
    (ahead : s.ahead = ts ++ (us ++ behind)) (closes : (behind.headD s.final).kind = .rParen) :
    Succeeds s (itemLink (expression rules) args) (e :: args, false) (ts ++ us) 0
    (ts.length + 1) := by
  have follows : Closes 0 ((us ++ behind).headD s.final).kind :=
    headD_breaks breaks (by decide) (by rw [closes]; decide)
  have stays {t : State} (same : t.final = s.final) {kind : Kind} (other : Kind.rParen ≠ kind) :
      (behind.headD t.final).kind ≠ kind := by
    rw [same, closes]
    exact other
  rw [← List.append_nil us]
  refine (expression_succeeds h ahead follows).before (fun t crossed => ?_) (Nat.le_refl _)
  have skipped :=
    succeeds_skipNewlines breaks (crossed.rest ahead) (stays crossed.final (by decide))
  refine (skipped.then fun u crossed' => ?_).mono (Nat.le_refl 0) (Nat.zero_le _)
  have none := run_eat_other (crossed'.rest (crossed.rest ahead))
    (stays (crossed.trans crossed').final (by decide : Kind.rParen ≠ .comma))
  exact .look none (succeeds_pure u _)

/-- An argument with the comma behind it. -/
theorem itemLink_comma {comma : Token} {after : List Token} (h : ReadsAt 0 ts e)
    (first : LineBreaks us)
    (kind : comma.kind = .comma) (second : LineBreaks after) (args : List Expr)
    (ahead : s.ahead = ts ++ (us ++ comma :: (after ++ behind)))
    (other : (behind.headD s.final).kind ≠ .newline) : Succeeds s (itemLink (expression rules) args)
    (e :: args, true) (ts ++ (us ++ comma :: after)) 0 (ts.length + 1) := by
  have follows : Closes 0 ((us ++ comma :: (after ++ behind)).headD s.final).kind :=
    headD_breaks first (by decide) (by rw [List.headD_cons, kind]; decide)
  refine (expression_succeeds h ahead follows).before (fun t crossed => ?_) (Nat.le_refl _)
  have skipped :=
    succeeds_skipNewlines first (crossed.rest ahead) (by rw [List.headD_cons, kind]; decide)
  refine (skipped.then fun u crossed' => ?_).mono (Nat.le_refl 0) (Nat.zero_le _)
  have here := crossed'.rest (crossed.rest ahead)
  refine (succeeds_eat here kind).then fun v crossed'' => ?_
  have same := ((crossed.trans crossed').trans crossed'').final
  exact (succeeds_skipNewlines second (crossed''.rest here) (same ▸ other)).map fun _ =>
    (e :: args, true)

theorem row_succeeds (row : Row LineBreaks items ts) (good : Arguments items) (args : List Expr)
    (ahead : s.ahead = ts ++ behind) (closes : (behind.headD s.final).kind = .rParen) :
    Succeeds s (repeating (itemLink (expression rules)) args)
    ((items.map Prod.snd).reverse ++ args) ts 0 (ts.length + 1) := by
  induction row generalizing s args with
  | @last item gap breaks =>
      have link :=
        itemLink_last (good item List.mem_cons_self).1 breaks args (by simpa using ahead) closes
      exact link.repeating_stop.mono (Nat.le_refl _) (by simp)
  | @more item items before after ts comma first kind second row ih =>
      have others : Arguments items := fun item member => good item (List.mem_cons_of_mem _ member)
      obtain ⟨t, rest, same, notBreak, _⟩ := row.head others
      have next : ((ts ++ behind).headD s.final).kind ≠ .newline := by
        rw [same]
        exact notBreak
      have split :
        s.ahead = item.1 ++ (before ++ comma :: (after ++ (ts ++ behind))) := by simpa using ahead
      have link := itemLink_comma (good item List.mem_cons_self).1 first kind second args split next
      have whole := link.repeating_more (by simp) fun u crossed =>
        ih others (item.2 :: args) (crossed.rest (by simpa using ahead)) (crossed.final ▸ closes)
      have shape : item.1 ++ (before ++ comma :: after) ++ ts =
        item.1 ++ (before ++ comma :: (after ++ ts)) := by simp
      have result : (items.map Prod.snd).reverse ++ item.2 :: args =
          ((item :: items).map Prod.snd).reverse ++ args := by
        simp
      rw [shape, result] at whole
      refine whole.mono (Nat.le_refl _) ?_
      simp only [List.length_append, List.length_cons]
      omega

/-- Arguments and the parenthesis behind them. -/
theorem arguments_succeed (listed : Inside LineBreaks items inside) (good : Arguments items)
    (closes : closing.kind = .rParen) (ahead : s.ahead = inside ++ closing :: behind) : Succeeds s
    (arguments rules) (items.map Prod.snd) (inside ++ [closing]) 0 (inside.length + 1) := by
  have closed (t : State) {args all : List Expr}
      (same : args.reverse = all) (here : t.ahead = closing :: behind) : Succeeds t
      (expect .rParen .closeArguments >>= fun _ => pure args.reverse) all [closing] 0 0 := by
    rw [same]
    exact (succeeds_expect here closes _).map fun _ => all
  cases listed with
  | none blank =>
      refine ((succeeds_skipNewlines blank ahead (by rw [List.headD_cons, closes]; decide)).then
        fun t crossed => ?_).mono (Nat.le_refl 0) (Nat.zero_le _)
      have here := crossed.rest ahead
      refine .look (run_check .rParen t) ?_
      rw [check_of_cons here, decide_eq_true closes]
      exact closed t rfl here
  | @some _ before ts first row =>
      obtain ⟨token, rest, same, notBreak, notClosing⟩ := row.head good
      rw [List.append_assoc] at ahead ⊢
      have next : ((ts ++ closing :: behind).headD s.final).kind ≠ .newline := by
        rw [same]
        exact notBreak
      have short : ts.length + 1 ≤ (before ++ ts).length + 1 := by simp
      refine ((succeeds_skipNewlines first ahead next).then fun t crossed => ?_).mono
        (Nat.le_refl 0) short
      have here := crossed.rest ahead
      refine .look (run_check .rParen t) ?_
      have starts :
        t.ahead = token :: (rest ++ closing :: behind) := by rw [here, same, List.cons_append]
      rw [check_of_cons starts, decide_eq_false notClosing]
      have rows := row_succeeds row good [] here closes
      rw [List.append_nil] at rows
      refine rows.before (fun u crossed' => ?_) (Nat.le_refl _)
      exact (closed u (List.reverse_reverse _) (crossed'.rest here)).mono (Nat.le_refl _)
        (Nat.zero_le _)

theorem callLink_succeeds (opens : opening.kind = .lParen) (listed : Inside LineBreaks items inside)
    (good : Arguments items) (closes : closing.kind = .rParen)
    (ahead : s.ahead = opening :: (inside ++ [closing]) ++ behind) :
    Succeeds s (linkAt 8 e) (.call e (items.map Prod.snd) (e.span.cover closing.span), true)
      (opening :: (inside ++ [closing])) 1 (opening :: (inside ++ [closing])).length := by
  have ahead' : s.ahead = opening :: (inside ++ closing :: behind) := by simpa using ahead
  have called (t : State) (crossed : Crossed s [opening] t) :
      Succeeds t (link >>= fun _ => arguments rules >>= fun args =>
      get >>= fun u => pure (Expr.call e args (e.span.cover u.last.span), true))
        (.call e (items.map Prod.snd) (e.span.cover closing.span), true) (inside ++ [closing])
        (1 + 0) (max 1 (1 + (inside.length + 1))) := by
    refine (succeeds_link t).bind fun u linked => ?_
    have crossed' : Crossed s [opening] u := crossed.trans linked
    refine (arguments_succeed listed good closes (crossed'.rest ahead')).mapState
      (f := fun args u => (Expr.call e args (e.span.cover u.last.span), true)) fun v crossed'' => ?_
    rw [crossed''.last, List.getLast?_concat, Option.getD_some]
  rw [linkAt_access]
  unfold postfixLink
  refine ((succeeds_eat ahead' opens).then called).mono (Nat.le_refl _) ?_
  rw [List.length_cons, List.length_append, List.length_singleton]
  omega

theorem memberLink_succeeds (kind : dot.kind = .dot)
    (named : name.kind = .identifier ∨ name.kind = .builtinVar)
    (ahead : s.ahead = [dot, name] ++ behind) : Succeeds s (linkAt 8 e)
    (.member e name.text (e.span.cover name.span), true) [dot, name] 1 [dot, name].length := by
  have other :
    ((dot :: name :: behind).headD s.final).kind ≠ .lParen := by rw [List.headD_cons, kind]; decide
  have accessed (t : State) (crossed : Crossed s [dot] t) :
      Succeeds t (link >>= fun _ => get >>= fun u =>
      if u.peek.kind = .identifier ∨ u.peek.kind = .builtinVar then
        advance >>= fun _ => pure (Expr.member e u.peek.text (e.span.cover u.peek.span), true)
      else refuse (.expected .propertyName)) (.member e name.text (e.span.cover name.span), true)
        ([] ++ [name]) (1 + 0) (max 1 (1 + 0)) := by
    refine (succeeds_link t).bind fun u linked => ?_
    have crossed' : Crossed s [dot] u := crossed.trans linked
    have ahead' : u.ahead = name :: behind := crossed'.rest ahead
    have here : u.peek = name := by rw [State.peek, ahead']; rfl
    refine .look (run_get u) ?_
    rw [here, if_pos named]
    exact (succeeds_advance ahead').map fun _ =>
      (Expr.member e name.text (e.span.cover name.span), true)
  rw [linkAt_access]
  refine .look (run_eat_other ahead other) ?_
  exact ((succeeds_eat ahead kind).then accessed).mono (Nat.le_refl _) (Nat.le_succ 1)

end Links

section Rules

variable {level : Nat} {e target value argument : Expr} {ts us : List Token}
  {t sign opening closing : Token}

theorem readsAt_leaf (leaf : t.leaf? = some e) : ReadsAt 9 [t] e := by
  intro s rest ahead _
  have here : s.peek = t := by rw [State.peek, ahead]; rfl
  have read (e : Expr) : Succeeds s (advance >>= fun _ => pure e) e [t] 0 [t].length :=
    ((succeeds_advance ahead).map fun _ => e).mono (Nat.le_refl _) (Nat.zero_le _)
  refine .look (run_get s) ?_
  rw [Token.leaf?] at leaf
  dsimp only
  rw [here]
  split at leaf
  case h_8 => cases leaf
  all_goals
    next kind =>
      cases leaf
      rw [kind]
      exact read _

theorem readsAt_group (opens : opening.kind = .lParen) (h : ReadsAt 0 ts e)
    (closes : closing.kind = .rParen) : ReadsAt 9 (opening :: (ts ++ [closing])) e := by
  intro s rest ahead _
  have ahead' : s.ahead = opening :: (ts ++ closing :: rest) := by simpa using ahead
  have here : s.peek = opening := by rw [State.peek, ahead']; rfl
  refine .look (run_get s) ?_
  dsimp only
  rw [here, opens]
  have grouped (t : State) (crossed : Crossed s [opening] t) :
      Succeeds t (expression rules >>= fun e =>
      expect .rParen .closeGroup >>= fun _ => pure e) e (ts ++ [closing]) 0 (ts.length + 1) := by
    refine ((expression_succeeds h (crossed.rest ahead')
        (by rw [List.headD_cons, closes]; decide)).bind fun u crossed' =>
      (succeeds_expect (crossed'.rest (crossed.rest ahead')) closes _).map fun _ =>
        e).mono (Nat.le_refl _) ?_
    omega
  exact ((succeeds_advance ahead').then grouped).mono (Nat.le_refl _) (by simp)

theorem readsAt_unary {operator : UnaryOp} (kind : sign.kind = operator.kind)
    (h : ReadsAt 7 ts argument) :
    ReadsAt 7 (sign :: ts) (.unary operator argument (sign.span.cover argument.span)) := by
  intro s rest ahead closes
  have here : s.peek = sign := by rw [State.peek, ahead]; rfl
  have signed : Succeeds s (advance >>= fun _ => nested rules.unary >>= fun argument =>
      pure (Expr.unary operator argument (s.peek.span.cover argument.span)))
        (.unary operator argument (sign.span.cover argument.span)) ([sign] ++ ts) 0
        (ts.length + 1) := by
    rw [here, rules_unary]
    refine (succeeds_advance ahead).then fun t crossed => ?_
    refine Succeeds.map (.nested fun u deeper => ?_) fun argument =>
      Expr.unary operator argument (sign.span.cover argument.span)
    have crossed' := crossed.trans deeper
    exact h u rest (crossed'.rest ahead) (crossed'.final ▸ closes)
  refine .look (run_get s) ?_
  dsimp only
  rw [here] at signed ⊢
  cases operator with
  | not =>
      rw [kind]
      exact signed
  | negate =>
      rw [kind]
      exact signed

theorem readsAt_assignment (left : ReadsAt 1 ts target) (assignable : target.isTarget = true)
    (kind : sign.kind = .assign) (right : ReadsAt 0 us value) :
    ReadsAt 0 (ts ++ sign :: us) (.assignment target value (target.span.cover value.span)) := by
  intro s rest ahead closes
  have ahead' : s.ahead = ts ++ (sign :: (us ++ rest)) := by simpa using ahead
  have assigned (t : State) (crossed : Crossed s ts t) : Succeeds t (check .assign >>= fun found =>
      if found then
        if target.isTarget then advance >>= fun _ => nested rules.assignment >>= fun value =>
          pure (Expr.assignment target value (target.span.cover value.span))
        else refuse .invalidTarget
      else pure target) (.assignment target value (target.span.cover value.span)) ([sign] ++ us) 0
        (us.length + 1) := by
    have here := crossed.rest ahead'
    refine .look (run_check .assign t) ?_
    rw [check_of_cons here, decide_eq_true kind, if_pos rfl, if_pos assignable, rules_assignment]
    refine (succeeds_advance here).then fun u crossed' => ?_
    refine Succeeds.map (.nested fun v deeper => ?_) fun value =>
      Expr.assignment target value (target.span.cover value.span)
    have crossed'' := (crossed.trans crossed').trans deeper
    exact right v rest (crossed''.rest (by simpa using ahead')) (crossed''.final ▸ closes)
  have target' := left s (sign :: (us ++ rest)) ahead' (by rw [List.headD_cons, kind]; decide)
  refine (target'.bind assigned).mono (Nat.le_refl _) ?_
  rw [List.length_append, List.length_cons]
  omega

/-- An expression of one level is read by the rule of the level below. -/
theorem ReadsAt.pass (inside : level < 9) (h : ReadsAt (level + 1) ts e)
    (head : ∃ t rest, ts = t :: rest ∧ (level = 7 → startsOperand t.kind = true)) :
    ReadsAt level ts e := by
  by_cases chained : isChain level = true
  · exact .of_begins chained (.of_reads h)
  have remaining : level = 0 ∨ level = 7 := by
    simp only [isChain, List.mem_cons, List.not_mem_nil, or_false, decide_eq_true_eq] at chained
    omega
  intro s rest ahead closes
  have operand := h s rest ahead (closes.mono (Nat.le_succ level))
  rcases remaining with rfl | rfl
  · have stops (t : State) (crossed : Crossed s ts t) : Succeeds t (check .assign >>= fun found =>
        if found then
          if e.isTarget then advance >>= fun _ => nested rules.assignment >>= fun value =>
            pure (Expr.assignment e value (e.span.cover value.span))
          else refuse .invalidTarget
        else pure e) e [] 0 0 := by
      have other : (rest.headD t.final).kind ≠ .assign := by
        rw [crossed.final]
        intro same
        rw [same] at closes
        cases closes
      refine .look (run_check .assign t) ?_
      rw [check_other (crossed.rest ahead) other]
      exact succeeds_pure t e
    have whole : Succeeds s (assignment rules) e (ts ++ []) (0 + 0) (max ts.length (0 + 0)) :=
      operand.bind stops
    rw [List.append_nil] at whole
    exact whole.mono (Nat.le_refl _) (by omega)
  · obtain ⟨t, more, rfl, starts⟩ := head
    have here : s.peek = t := by rw [State.peek, ahead]; rfl
    have kind := starts rfl
    refine .look (run_get s) ?_
    dsimp only
    rw [here]
    split
    · next sign =>
        rw [sign] at kind
        cases kind
    · next sign =>
        rw [sign] at kind
        cases kind
    · exact operand

end Rules

/-- Every expression is read by the rule of its level, and one that is joined from the left begins a
chain. -/
theorem Derives.reads {level : Nat} {ts : List Token} {e : Expr}
    (h : Derives LineBreaks level ts e) :
    ReadsAt level ts e ∧ (isChain level = true → BeginsAt level ts e) := by
  induction h with
  | assignment _ assignable kind _ ihl ihr =>
      exact ⟨readsAt_assignment ihl.1 assignable kind ihr.1, fun chained => by cases chained⟩
  | @binary operator left right ts us sign _ kind _ ihl ihr =>
      have leads : Closes (operator.level + 1) sign.kind := by
        rw [kind]
        exact closes_kind operator
      have begins :=
          (ihl.2 (isChain_level operator)).link ⟨sign, us, rfl, leads⟩ fun s rest ahead closes =>
        binaryLink_succeeds kind ihr.1 ahead closes
      exact ⟨.of_begins (isChain_level operator) begins, fun _ => begins⟩
  | unary kind _ ih => exact ⟨readsAt_unary kind ih.1, fun chained => by cases chained⟩
  | @call callee items ts inside opening closing _ opens listed arguments closes ihc iha =>
      have good : Arguments items := by
        intro item member
        obtain ⟨t, rest, same, starts, _⟩ := (arguments item member).head
        exact ⟨(iha item member).1, t, rest, same, starts⟩
      have leads : Closes 9 opening.kind := by
        rw [opens]
        decide
      have begins := (ihc.2 rfl).link ⟨opening, _, rfl, leads⟩ fun s rest ahead _ =>
        callLink_succeeds opens listed good closes ahead
      exact ⟨.of_begins rfl begins, fun _ => begins⟩
  | @member object ts dot name _ kind named ih =>
      have leads : Closes 9 dot.kind := by
        rw [kind]
        decide
      have begins := (ih.2 rfl).link ⟨dot, [name], rfl, leads⟩ fun s rest ahead _ =>
        memberLink_succeeds kind named ahead
      exact ⟨.of_begins rfl begins, fun _ => begins⟩
  | leaf leaf => exact ⟨readsAt_leaf leaf, fun chained => by cases chained⟩
  | group opens _ closes ih =>
      exact ⟨readsAt_group opens ih.1 closes, fun chained => by cases chained⟩
  | @tighter level e ts above ih =>
      obtain ⟨t, rest, same, _, tight⟩ := above.head
      exact ⟨ih.1.pass above.level_le ⟨t, rest, same, fun sign => tight (by omega)⟩,
        fun _ => .of_reads ih.1⟩

end Grammar

/-- The parser of expressions is the grammar. What it consumes where it succeeds is an expression
with line breaks next to the parentheses and the commas of calls, and one without them. And where
the tokens of an expression are ahead, with line breaks there or without, and behind them no token
that continues it, it consumes these and gives their tree, or it runs out of levels, of which as
many are taken as there are tokens at most. -/
theorem expression_grammar {s : State} (closed : s.Closed) :
    (∀ e t, (expression rules).run s = (.ok e, t) → ∃ ts, s.ahead = ts ++ t.ahead ∧ Grammar.Derives
      Grammar.LineBreaks 0 ts e ∧ Grammar.Derives (· = []) 0 (Grammar.joined ts) e) ∧
    ∀ ts rest e, Grammar.Derives (· = []) 0 ts e ∨ Grammar.Derives Grammar.LineBreaks 0 ts e →
    s.ahead = ts ++ rest → continued? (rest.headD s.final).kind = none →
        (∃ t, (expression rules).run s = (.ok e, t) ∧ t.ahead = rest) ∨
          ∃ error t, (expression rules).run s = (.error error, t) ∧
            (error.cause = .nestedTooDeeply ∨ error.cause = .chainTooLong) ∧
            maxDepth ≤ s.depth + ts.length := by
  constructor
  · intro e t run
    obtain ⟨ts, taken, derives⟩ := expression_sound rules_sound s closed e t run
    exact ⟨ts, taken.ahead, derives, derives.joined⟩
  · intro ts rest e either ahead ends
    have derives : Grammar.Derives Grammar.LineBreaks 0 ts e :=
      either.elim
        (fun strict => strict.mono fun gap none => by rw [none]; exact List.forall_mem_nil _) id
    have closes : Closes 0 (rest.headD s.final).kind := by
      rw [Closes, ends]
      rfl
    rcases Grammar.expression_succeeds derives.reads.1 ahead closes with
      ⟨t, run, crossed, _⟩ | ⟨error, t, run, cause, short⟩
    · exact .inl ⟨t, run, crossed.rest ahead⟩
    · exact .inr ⟨error, t, run, cause, by omega⟩

/-- A call with a line break between its arguments. -/
theorem expression_grammar_call : ∃ s : State, s.Closed ∧ ∃ e t ts,
    (expression rules).run s = (.ok e, t) ∧ t.ahead = [] ∧ s.ahead = ts ++ t.ahead ∧
    Grammar.Derives (· = []) 0 (Grammar.joined ts) e ∧ (Grammar.joined ts).length < ts.length := by
  have closed := (State.cursor_ofTokens "f(a,\n-b)" (scan "f(a,\n-b)").tokens).final
  refine ⟨.ofTokens "f(a,\n-b)" (scan "f(a,\n-b)").tokens, closed, ?_⟩
  have reads :
      ((expression rules).run (.ofTokens "f(a,\n-b)" (scan "f(a,\n-b)").tokens)).1.toBool = true ∧
      ((expression rules).run (.ofTokens "f(a,\n-b)" (scan "f(a,\n-b)").tokens)).2.ahead = [] ∧
      (Grammar.joined (State.ofTokens "f(a,\n-b)" (scan "f(a,\n-b)").tokens).ahead).length <
        (State.ofTokens "f(a,\n-b)" (scan "f(a,\n-b)").tokens).ahead.length := by decide +kernel
  have grammar := (expression_grammar closed).1
  generalize State.ofTokens "f(a,\n-b)" (scan "f(a,\n-b)").tokens = s at *
  generalize ran : (expression rules).run s = outcome at *
  obtain ⟨result, t⟩ := outcome
  obtain ⟨ok, none, breaks⟩ := reads
  cases result with
  | error => cases ok
  | ok e =>
      obtain ⟨ts, ahead, _, derives⟩ := grammar e t rfl
      have whole : s.ahead = ts := by rw [ahead, none, List.append_nil]
      rw [whole] at breaks
      exact ⟨e, t, ts, rfl, none, ahead, derives, breaks⟩

end ScriptLens
