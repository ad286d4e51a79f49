import ScriptLens.Lint.Sequences
import ScriptLens.Proofs.Grammar.Placed
import ScriptLens.Proofs.Spans.Statements

/-!
Operators in a row. Of the operators that may not follow one another an expression has two next to
each other only where the second is the sign of a negation; and a script that is read as one
expression statement is an expression between line breaks.
-/

namespace ScriptLens

open ParseM ScriptLens.Parser

namespace Grammar

open Lint (isSequenceOperator)

/-- The token is the sign of a negation in one of the expressions, and the operand comes next. -/
def Negates (es : List Expr) (sign : Token) (behind : List Token) : Prop :=
  sign.kind = .minus ∧ ∃ argument us vs, behind = us ++ vs ∧ Derives LineBreaks 7 us argument ∧
    .unary .negate argument (sign.span.cover argument.span) ∈ es

/-- Two operators next to each other are the second one a sign. -/
def Signed (es : List Expr) (ts : List Token) : Prop :=
  ∀ front a b back, ts = front ++ a :: b :: back → isSequenceOperator a.kind = true →
    isSequenceOperator b.kind = true → Negates es b back

/-- No operator stands last. -/
def Completed (ts : List Token) : Prop := ∀ t ∈ ts.getLast?, isSequenceOperator t.kind = false

variable {es fs : List Expr} {ts us : List Token} {sign : Token} {level : Nat} {e : Expr}

theorem Negates.extend (h : Negates es sign us) (inside : es ⊆ fs) (more : List Token) :
    Negates fs sign (us ++ more) := by
  obtain ⟨kind, argument, first, rest, rfl, derives, member⟩ := h
  exact ⟨kind, argument, first, rest ++ more, List.append_assoc _ _ _, derives, inside member⟩

namespace Signed

theorem mono (h : Signed es ts) (inside : es ⊆ fs) : Signed fs ts := by
  intro front a b back split left right
  simpa using (h front a b back split left right).extend inside []

theorem quiet (h : ∀ t ∈ ts, isSequenceOperator t.kind = false) : Signed es ts := by
  rintro front a b back rfl left _
  rw [h a (by simp)] at left
  cases left

theorem append (first : Signed es ts) (second : Signed es us)
    (across : ∀ a ∈ ts.getLast?, ∀ b back, us = b :: back → isSequenceOperator a.kind = true →
      isSequenceOperator b.kind = true → Negates es b back) : Signed es (ts ++ us) := by
  intro front a b back split left right
  rcases List.append_eq_append_iff.mp split with ⟨more, rfl, behind⟩ | ⟨more, rfl, behind⟩
  · exact second more a b back behind left right
  cases more with
  | nil => exact second [] a b back behind.symm left right
  | cons x more =>
      obtain ⟨rfl, later⟩ := List.cons.inj behind
      cases more with
      | nil => exact across a (by simp) b back later.symm left right
      | cons y more =>
          obtain ⟨rfl, rfl⟩ := List.cons.inj later
          exact (first front a b more rfl left right).extend (List.Subset.refl es) us

/-- Behind a token that is no operator anything may follow. -/
theorem after (first : Signed es ts) (completed : Completed ts) (second : Signed es us) :
    Signed es (ts ++ us) := by
  refine first.append second fun a last _ _ _ left _ => ?_
  rw [completed a last] at left
  cases left

end Signed

theorem completed_nil : Completed [] := by rintro t ⟨⟩

theorem completed_concat (ts : List Token) {t : Token} (other : isSequenceOperator t.kind = false) :
    Completed (ts ++ [t]) := by
  intro u last
  rw [List.getLast?_concat] at last
  cases last
  exact other

section Quiet

theorem plain {t : Token} {k : Kind} (kind : t.kind = k) (other : isSequenceOperator k = false) :
    isSequenceOperator t.kind = false := kind ▸ other

theorem LineBreaks.quiet (h : LineBreaks ts) : ∀ t ∈ ts, isSequenceOperator t.kind = false :=
  fun t member => plain (h t member) rfl

theorem LineBreaks.append (h : LineBreaks ts) (h' : LineBreaks us) : LineBreaks (ts ++ us) :=
  List.forall_mem_append.mpr ⟨h, h'⟩

theorem leaf_quiet {t : Token} (leaf : t.leaf? = some e) : isSequenceOperator t.kind = false := by
  unfold Token.leaf? at leaf
  split at leaf
  case h_8 => cases leaf
  all_goals
    next kind => exact plain kind rfl

end Quiet

theorem Derives.completed (h : Derives LineBreaks level ts e) : Completed ts := by
  have behind (ts : List Token) {us : List Token}
      {sign : Token} (some : us ≠ []) (completed : Completed us) :
      Completed (ts ++ sign :: us) := by
    intro t last
    rw [List.getLast?_append_of_ne_nil _ (List.cons_ne_nil sign us),
      List.getLast?_cons_of_ne_nil some] at last
    exact completed t last
  induction h with
  | assignment _ _ _ right _ ih => exact behind _ right.ne_nil ih
  | binary _ _ second _ ih => exact behind _ second.ne_nil ih
  | unary _ operand ih => exact behind [] operand.ne_nil ih
  | @call callee items ts inside opening closing _ _ _ _ closes _ _ =>
      have shape :
        ts ++ opening :: (inside ++ [closing]) = (ts ++ opening :: inside) ++ [closing] := by simp
      rw [shape]
      exact completed_concat _ (plain closes rfl)
  | @member object ts dot name _ _ named _ =>
      have shape : ts ++ [dot, name] = (ts ++ [dot]) ++ [name] := by simp
      rw [shape]
      exact completed_concat _ (named.elim (plain · rfl) (plain · rfl))
  | @leaf t e leaf => exact completed_concat [] (leaf_quiet leaf)
  | @group e ts opening closing _ _ closes _ =>
      exact completed_concat (opening :: ts) (plain closes rfl)
  | tighter _ ih => exact ih

/-- An operator at the head of an expression is the sign of a negation. -/
theorem Derives.leads (h : Derives LineBreaks level ts e) {b : Token} {back : List Token}
    (split : ts = b :: back)
    (operator : isSequenceOperator b.kind = true) : Negates e.parts b back := by
  have within {ts us : List Token} {b : Token} {back : List Token} {es fs : List Expr}
      (some : ts ≠ []) (inside : es ⊆ fs)
      (leads : ∀ {b back}, ts = b :: back → isSequenceOperator b.kind = true → Negates es b back)
      (split : ts ++ us = b :: back) (operator : isSequenceOperator b.kind = true) :
      Negates fs b back := by
    rcases List.append_eq_cons_iff.mp split with ⟨nothing, _⟩ | ⟨rest, here, rfl⟩
    · exact absurd nothing some
    · exact (leads here operator).extend inside us
  induction h generalizing b back with
  | @assignment target value ts us sign left _ _ _ ihl _ =>
      refine within left.ne_nil ?_ ihl split operator
      rw [Expr.parts]
      exact List.subset_cons_of_subset _ (List.subset_append_left _ _)
  | binary first _ _ ihl _ =>
      refine within first.ne_nil ?_ ihl split operator
      rw [Expr.parts]
      exact List.subset_cons_of_subset _ (List.subset_append_left _ _)
  | @unary sign argument ts b' kind operand _ =>
      cases split
      cases sign with
      | not =>
          rw [kind] at operator
          cases operator
      | negate =>
          refine ⟨kind, argument, ts, [], (List.append_nil ts).symm, operand, ?_⟩
          rw [Expr.parts]
          exact List.mem_cons_self
  | call before _ _ _ _ ih _ =>
      refine within before.ne_nil ?_ ih split operator
      rw [Expr.parts]
      exact List.subset_cons_of_subset _ (List.subset_append_left _ _)
  | member before _ _ ih =>
      refine within before.ne_nil ?_ ih split operator
      rw [Expr.parts]
      exact List.subset_cons_self _ _
  | leaf leaf =>
      cases split
      rw [leaf_quiet leaf] at operator
      cases operator
  | group opens _ _ _ =>
      cases split
      rw [opens] at operator
      cases operator
  | tighter _ ih => exact ih split operator

/-- An operator before an expression of which the negations are known. -/
theorem Signed.around (first : Signed fs ts) (completed : Completed ts) (second : Signed e.parts us)
    (right : Derives LineBreaks level us e) (inside : e.parts ⊆ fs) :
    Signed fs (ts ++ sign :: us) := by
  have alone : Signed fs [sign] := by
    intro front a b back split
    have short := congrArg List.length split
    simp at short
    omega
  have behind : Signed fs ([sign] ++ us) := by
    refine alone.append (second.mono inside) fun _ _ b back split _ operator => ?_
    simpa using (right.leads split operator).extend inside []
  exact first.after completed behind

theorem Row.signed {items : List (List Token × Expr)} (h : Row LineBreaks items ts)
    (each : ∀ item ∈ items, Signed es item.1 ∧ Completed item.1) : Signed es ts := by
  induction h with
  | @last item behind ends =>
      have here := each item List.mem_cons_self
      exact here.1.after here.2 (.quiet ends.quiet)
  | @more item items before after ts comma first kind second _ ih =>
      have here := each item List.mem_cons_self
      have gap : ∀ t ∈ before ++ comma :: after, isSequenceOperator t.kind = false :=
        List.forall_mem_append.mpr
          ⟨first.quiet, List.forall_mem_cons.mpr ⟨plain kind rfl, second.quiet⟩⟩
      have rest : Signed es ((before ++ comma :: after) ++ ts) :=
        (Signed.quiet gap).after (fun t last => gap t (List.mem_of_getLast? last))
          (ih fun item member => each item (List.mem_cons_of_mem _ member))
      have shape : before ++ comma :: (after ++ ts) = (before ++ comma :: after) ++ ts := by simp
      rw [shape]
      exact here.1.after here.2 rest

theorem Inside.signed {items : List (List Token × Expr)} (h : Inside LineBreaks items ts)
    (each : ∀ item ∈ items, Signed es item.1 ∧ Completed item.1) : Signed es ts := by
  cases h with
  | none blank => exact .quiet blank.quiet
  | some first row =>
      exact (Signed.quiet first.quiet).after
        (fun t last => first.quiet t (List.mem_of_getLast? last)) (row.signed each)

/-- Of two operators next to each other in an expression the second is the sign of a negation. -/
theorem Derives.signed (h : Derives LineBreaks level ts e) : Signed e.parts ts := by
  have bracketed {es : List Expr} {ts : List Token} {opening closing : Token}
      (inside : Signed es ts) (opens : opening.kind = .lParen) (closes : closing.kind = .rParen) :
      Signed es (opening :: (ts ++ [closing])) := by
    have one {t : Token} (other : isSequenceOperator t.kind = false) :
        ∀ u ∈ [t], isSequenceOperator u.kind = false :=
      List.forall_mem_singleton.mpr other
    have behind : Signed es (ts ++ [closing]) := by
      refine inside.append (.quiet (one (plain closes rfl))) ?_
      rintro _ _ b back next _ right
      cases next
      rw [closes] at right
      cases right
    exact (Signed.quiet (one (plain opens rfl))).after
      (completed_concat [] (plain opens rfl)) behind
  induction h with
  | assignment left _ _ right ihl ihr =>
      rw [Expr.parts]
      refine (ihl.mono ?_).around left.completed ihr right ?_
      · exact List.subset_cons_of_subset _ (List.subset_append_left _ _)
      · exact List.subset_cons_of_subset _ (List.subset_append_right _ _)
  | binary first _ second ihl ihr =>
      rw [Expr.parts]
      refine (ihl.mono ?_).around first.completed ihr second ?_
      · exact List.subset_cons_of_subset _ (List.subset_append_left _ _)
      · exact List.subset_cons_of_subset _ (List.subset_append_right _ _)
  | @unary operator argument ts sign _ operand ih =>
      rw [Expr.parts]
      exact (Signed.quiet (List.forall_mem_nil _)).around completed_nil ih operand
        (List.subset_cons_self _ _)
  | @call callee items ts inside opening closing before opens listed arguments closes ih each =>
      rw [Expr.parts, Expr.listedParts_eq]
      have member : ∀ item ∈ items, item.2.parts ⊆ (items.map Prod.snd).flatMap Expr.parts :=
        fun item member e here => List.mem_flatMap.mpr ⟨item.2, List.mem_map_of_mem member, here⟩
      have within := listed.signed fun item here =>
        ⟨(each item here).mono (member item here), (arguments item here).completed⟩
      refine (ih.mono ?_).after before.completed ((bracketed within opens closes).mono ?_)
      · exact List.subset_cons_of_subset _ (List.subset_append_left _ _)
      · exact List.subset_cons_of_subset _ (List.subset_append_right _ _)
  | @member object ts dot name before kind named ih =>
      rw [Expr.parts]
      refine (ih.mono (List.subset_cons_self _ _)).after before.completed
        (.quiet fun t member => ?_)
      rcases List.mem_cons.mp member with rfl | last
      · exact plain kind rfl
      · rw [List.mem_singleton.mp last]
        exact named.elim (plain · rfl) (plain · rfl)
  | leaf leaf => exact .quiet (List.forall_mem_singleton.mpr (leaf_quiet leaf))
  | group opens _ closes ih => exact bracketed ih opens closes
  | tighter _ ih => exact ih

end Grammar

namespace Parser

open Grammar

section Sole

variable {α : Type} {inner : Level} {s t : State} {e : Expr} {span : Span}

/-- The rule gives no expression statement. -/
def Worded (m : ParseM Stmt) : Prop :=
  ∀ s stmt t, m.run s = (.ok stmt, t) → stmt.isExpression = false

theorem Worded.bind {m : ParseM α} {f : α → ParseM Stmt} (h : ∀ a, Worded (f a)) :
    Worded (m >>= f) := by
  intro s stmt t run
  obtain ⟨a, u, _, rest⟩ := run_bind_eq_ok run
  exact h a u stmt t rest

theorem worded_pure {stmt : Stmt} (other : stmt.isExpression = false) : Worded (pure stmt) := by
  intro s found t run
  cases run
  exact other

/-- The end of a statement that is its words, and perhaps a body. -/
theorem worded_closing {m : ParseM α} {f : α → State → Stmt}
    (other : ∀ a s, (f a s).isExpression = false) :
    Worded (m >>= fun a => get >>= fun s => pure (f a s)) :=
  .bind fun a => .bind fun s => worded_pure (other a s)

/-- An expression statement is what the rule for expressions reads. -/
theorem statement_expression (run : (statement inner).run s = (.ok (.expression e span), t)) :
    (expression inner).run s = (.ok e, t) := by
  have refuted {m : ParseM Stmt} (worded : Worded m)
      (run : m.run s = (.ok (.expression e span), t)) :
      (expression inner).run s = (.ok e, t) := nomatch worded s _ t run
  rw [statement, run_bind_ok (run_get s)] at run
  split at run
  case h_1 => exact refuted (.bind fun _ => worded_pure rfl) run
  case h_2 => exact refuted (.bind fun _ => .bind fun _ => worded_closing fun _ _ => rfl) run
  case h_3 =>
    exact refuted
        (.bind fun _ => .bind fun _ => .bind fun _ => .bind fun _ => .bind fun _ => .bind fun _ =>
      worded_closing fun _ _ => rfl) run
  case h_4 => exact refuted (.bind fun _ => .bind fun _ => worded_closing fun _ _ => rfl) run
  case h_5 =>
    exact refuted (.bind fun _ => .bind fun _ => .bind fun _ => .bind fun _ => worded_closing
      fun _ _ => rfl) run
  case h_6 => exact refuted (.bind fun _ => worded_closing fun _ _ => rfl) run
  case h_7 => exact refuted (.bind fun _ => worded_pure rfl) run
  case h_8 => exact refuted (.bind fun _ => worded_pure rfl) run
  case h_9 => exact refuted (.bind fun _ => worded_closing fun _ _ => rfl) run
  case h_10 => exact refuted (.bind fun _ => .bind fun _ => worded_closing fun _ _ => rfl) run
  case h_11 =>
    split at run
    · exact refuted
          (.bind fun _ => .bind fun _ => .bind fun _ => .bind fun _ => .bind fun _ => .bind fun _ =>
        worded_closing fun _ _ => rfl) run
    · obtain ⟨found, u, first, rest⟩ := run_bind_eq_ok run
      cases rest
      exact first

theorem recovered_sole (closed : s.Closed) : Takes s (recovered rules) fun stmt ts t =>
    (stmt = none → t.skipped ≠ []) ∧ ∀ e span, stmt = some (.expression e span) →
    Derives LineBreaks 0 ts e := by
  have read : Takes s.begin (nested rules.statement) fun stmt ts _ =>
      ∀ e span, stmt = .expression e span → Derives LineBreaks 0 ts e := by
    refine Takes.nested ?_ fun _ _ _ _ => id
    rw [rules_statement]
    intro stmt u run
    obtain ⟨us, taken, _⟩ := takes_any (statement_returns rules_returns).climbs stmt u run
    refine ⟨us, taken, ?_⟩
    rintro e span rfl
    obtain ⟨us', taken', derives⟩ := expression_sound rules_sound
      { s.begin with depth := s.begin.depth + 1 } closed e u (statement_expression run)
    rwa [List.append_cancel_right (taken.ahead.symm.trans taken'.ahead)]
  refine takes_recovered rules_returns (read.weaken ?_) ?_
  · intro stmt ts _ _ derives
    exact ⟨nofun, fun e span same => derives e span (Option.some.inj same)⟩
  · intro e u ts _ _
    exact ⟨fun _ => List.cons_ne_nil _ _, nofun⟩

/-- The tokens are an expression between line breaks. -/
def Alone (ts : List Token) (e : Expr) : Prop :=
  ∃ before us behind, ts = before ++ (us ++ behind) ∧ LineBreaks before ∧ LineBreaks behind ∧
    Derives LineBreaks 0 us e

/-- Statements read so far: unless one was dropped, none are line breaks, and a single expression
stands alone. -/
structure Soles (body : List Stmt) (ts : List Token) : Prop where
  none : body = [] → LineBreaks ts
  single : ∀ e span, body = [.expression e span] → Alone ts e

theorem statementLink_sole (closed : s.Closed) {body : List Stmt} {ts : List Token}
    (h : s.skipped = [] → Soles body ts) :
    Takes s (statementLink rules State.atEnd body) fun next us t =>
    t.skipped = [] → Soles next.1 (ts ++ us) := by
  intro next u run
  obtain ⟨ns, taken, newlines⟩ := Taken.skipNewlines s
  have quiet : Walk false s s.skipNewlines := s.walk_skipNewlines
  rw [statementLink, run_bind_ok (run_skipNewlines s), run_bind_ok (run_get s.skipNewlines)] at run
  split at run
  · cases run
    refine ⟨ns, taken, fun clean => ?_⟩
    rw [quiet.skipped] at clean
    refine ⟨fun nothing => LineBreaks.append ((h clean).none nothing) newlines,
      fun e span single => ?_⟩
    obtain ⟨before, us, behind, rfl, first, last, derives⟩ := (h clean).single e span single
    exact ⟨before, us, behind ++ ns, by simp, first, LineBreaks.append last newlines, derives⟩
  · obtain ⟨stmt, v, found⟩ := recovered_ok rules s.skipNewlines
    rw [run_bind_ok found] at run
    cases run
    obtain ⟨us, taken', dropped, expression⟩ := recovered_sole (taken.closed closed) stmt _ found
    refine ⟨ns ++ us, taken.trans taken', fun clean => ?_⟩
    have walk := (recovered_returns rules_returns s.skipNewlines).1.skipped_suffix
    rw [found, clean, List.suffix_nil, quiet.skipped] at walk
    cases stmt with
    | none => exact absurd clean (dropped rfl)
    | some stmt =>
        refine ⟨fun nothing => absurd nothing (List.cons_ne_nil _ _), fun e span single => ?_⟩
        obtain ⟨rfl, rfl⟩ := List.cons.inj single
        exact ⟨ts ++ ns, us, [], by simp, LineBreaks.append ((h walk).none rfl) newlines,
          List.forall_mem_nil _, expression e span rfl⟩

/-- A script that is read as one expression statement, with nothing dropped, is an expression
between line breaks. -/
theorem script_sole (closed : s.Closed) (run : script.run s = (.ok [.expression e span], t))
    (clean : t.skipped = []) : ∃ ts, s.ahead = ts ++ t.ahead ∧ Alone ts e := by
  have loop : Takes s (repeating (statementLink rules State.atEnd) []) fun body ts t =>
      t.skipped = [] → Soles body ts := by
    refine takes_loop ?_ fun body ts u taken before =>
      statementLink_sole (taken.closed closed) before
    exact fun _ => ⟨fun _ => List.forall_mem_nil _, nofun⟩
  obtain ⟨body, u, first, rest⟩ := run_bind_eq_ok run
  obtain ⟨ts, taken, soles⟩ := loop body u first
  obtain ⟨found, rfl⟩ := Prod.mk.inj rest
  have order : body.reverse = [.expression e span] := Except.ok.inj found
  have single : body = [.expression e span] := by simpa using congrArg List.reverse order
  exact ⟨ts, taken.ahead, (soles clean).single e span single⟩

end Sole

end Parser

end ScriptLens
