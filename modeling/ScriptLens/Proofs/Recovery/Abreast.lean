import ScriptLens.Proofs.Parser.Tally
import ScriptLens.Proofs.Recovery.Twins

/-!
Statements on one line. A statement that starts on the line ends on it or fails on it; recovery then
stops on the line too, or goes on just behind its line break. So the reader of the line and the
reader in the script stay abreast from statement to statement.
-/

namespace ScriptLens

open ParseM ScriptLens.Parser

theorem OnLine.crosses {k : Nat} {ts : List Token} (h : OnLine k ts) :
    ∀ u ∈ ts, u.kind.crosses = false := by
  induction ts generalizing k with
  | nil => exact h.elim
  | cons t rest ih =>
      rw [OnLine] at h
      intro u member
      split at h
      · next feed =>
          rw [h.2, List.mem_singleton] at member
          rw [member, feed]
          rfl
      · rcases List.mem_cons.mp member with rfl | later
        · exact h.1
        · exact ih h.2.2 u later

theorem OnLine.split {k : Nat} {ts : List Token} (h : OnLine k ts) :
    ∃ (core : List Token) (final : Token),
    ts = core ++ [final] ∧ final.kind = .newline ∧ ∀ u ∈ core, u.kind ≠ .newline := by
  induction ts generalizing k with
  | nil => exact h.elim
  | cons t rest ih =>
      rw [OnLine] at h
      split at h
      · next feed => exact ⟨[], t, by rw [h.2]; rfl, feed, by simp⟩
      · next other =>
          obtain ⟨core, final, rfl, feed, none⟩ := ih h.2.2
          refine ⟨t :: core, final, rfl, feed, ?_⟩
          intro u member
          rcases List.mem_cons.mp member with rfl | later
          · exact other
          · exact none u later

namespace Token

theorem pastParens_suffix {depth : Nat} {ts rest : List Token}
    (h : pastParens depth ts = some rest) : rest <:+ ts := by
  induction ts generalizing depth with
  | nil => cases h
  | cons t later ih =>
      rw [pastParens] at h
      split at h
      · exact (ih h).trans (List.suffix_cons t later)
      · split at h
        · cases h
          exact List.suffix_cons t _
        · exact (ih h).trans (List.suffix_cons t later)
      · cases h
      · cases h
      · cases h
      · exact (ih h).trans (List.suffix_cons t later)

/-- A declaration has an opening brace. -/
theorem headsDeclaration_eq_false {passed : Kind → Bool} {ts : List Token}
    (none : ∀ t ∈ ts, t.kind ≠ .lBrace) : headsDeclaration passed ts = false := by
  unfold headsDeclaration
  split
  · next name paren rest =>
      apply Bool.and_eq_false_imp.mpr
      intro _
      cases past : pastParens 1 rest with
      | none => rfl
      | some after =>
          dsimp only
          split
          · rfl
          · next t later behind =>
              have inside : t ∈ after :=
                (List.dropWhile_sublist _).subset (behind ▸ List.mem_cons_self)
              have whole : t ∈ name :: paren :: rest :=
                List.mem_cons_of_mem _
                  (List.mem_cons_of_mem _ ((pastParens_suffix past).subset inside))
              exact decide_eq_false (none t whole)
  · rfl

end Token

theorem Parser.State.atFunction_eq_false {s : State} (none : ∀ u ∈ s.ahead, u.kind ≠ .lBrace) :
    s.atFunction = false := by
  unfold State.atFunction
  apply Token.headsDeclaration_eq_false
  intro u member
  apply none
  split at member
  · next t rest ahead =>
      split at member
      · exact ahead ▸ List.mem_cons_of_mem t member
      · exact ahead ▸ member
  · cases member

namespace Twin

variable {w : Around} {known : Bool} {k : Nat} {s t : State}

/-- No function is declared on the line, nor does one start there. -/
theorem atFunction (h : Twin w known k s t) : s.atFunction = false ∧ t.atFunction = false := by
  have braceless : ∀ u ∈ s.ahead, u.kind ≠ .lBrace := by
    intro u member brace
    have crosses := h.line.crosses u member
    rw [brace] at crosses
    cases crosses
  refine ⟨State.atFunction_eq_false braceless, State.atFunction_eq_false ?_⟩
  intro u member
  rw [h.ahead] at member
  rcases List.mem_append.mp member with here | there
  · obtain ⟨u', inside, rfl⟩ := List.mem_map.mp here
    exact braceless u' inside
  · exact w.braceless u there

theorem restOfLine (h : Twin w known k s t) :
    ∃ core final, s.ahead = core ++ [final] ∧ s.restOfLine = core ∧
    t.restOfLine = core.map (Token.behind w.before) ∧ ∀ u ∈ core, u.kind ≠ .newline := by
  obtain ⟨core, final, here, feed, none⟩ := h.line.split
  have all : ∀ u ∈ core, (u.kind != .newline) = true := by simpa using none
  have all' : ∀ u ∈ core.map (Token.behind w.before),
    (u.kind != .newline) = true := by simpa using none
  refine ⟨core, final, here, ?_, ?_, none⟩
  · rw [State.restOfLine, here, List.takeWhile_append_of_pos all]
    simp [feed]
  · rw [State.restOfLine, h.ahead, here, List.map_append, List.append_assoc,
      List.takeWhile_append_of_pos all']
    simp [feed]

theorem lineText (h : Twin w known k s t) : t.lineText = s.lineText := by
  obtain ⟨core, final, here, rest, rest', _⟩ := h.restOfLine
  rw [State.lineText, State.lineText, rest, rest', List.head?_map, List.getLast?_map, h.source]
  cases first : core.head? with
  | none => rfl
  | some a =>
      cases last : core.getLast? with
      | none => rfl
      | some b =>
          have member : b ∈ s.ahead := here ▸ List.mem_append_left _ (List.mem_of_getLast? last)
          exact congrArg (·.getD []) (Text.slice?_inside (h.inside b member) w.before w.after)

theorem skipLine (h : Twin w true k s t) : ∃ j, Twin w true j s.skipLine t.skipLine := by
  have advance : ∀ (core : List Token) (final : Token) {k s t}, s.ahead = core ++ [final] →
      (∀ u ∈ core, u.kind ≠ .newline) →
      Twin w true k s t → ∃ j, Twin w true j (core.foldl (fun s _ => s.advance) s)
        ((core.map (Token.behind w.before)).foldl (fun s _ => s.advance) t) := by
    intro core
    induction core with
    | nil => exact fun _ _ _ _ _ _ twin => ⟨_, twin⟩
    | cons u core ih =>
        intro final k s t here none twin
        have first : s.peek = u := by
          rw [State.peek, here]
          rfl
        have next := twin.advance (by rw [first]; exact none u List.mem_cons_self)
        refine ih final ?_ (fun v member => none v (List.mem_cons_of_mem u member)) next
        change s.advance.ahead = _
        rw [State.advance_of_cons here]
        rfl
  obtain ⟨core, final, here, rest, rest', none⟩ := h.restOfLine
  rw [State.skipLine, State.skipLine, rest, rest']
  exact advance core final here none h

end Twin

namespace Parser

variable {w : Around} {inner : Level} {known : Bool} {k : Nat} {s t : State}

theorem operand?_tracks (h : inner.Mirrored w) :
    Tracks w true k k (Option.map (Expr.behind w.before))
    (operand? inner .rBrace) (operand? inner .rBrace) := by
  intro s t twin
  rw [operand?, run_bind_ok (run_get s), run_bind_ok (run_get t), twin.atEnd.1, twin.atEnd.2,
    twin.check, twin.check]
  split
  · exact .ok twin
  · apply (expression_mirrored h true k s t twin).bind
    intro e
    exact tracks_pure (some e)

theorem returns_parallel (h : inner.Mirrored w) (twin : Twin w known k s t)
    (inert : s.peek.kind.isInert = true) :
    Parallel w k (Stmt.behind w.before) ((returns inner).run s) ((returns inner).run t) := by
  rw [returns, run_bind_ok (run_advance s), run_bind_ok (run_advance t), twin.peek]
  apply Tracks.bind (operand?_tracks h) _ _ _ (twin.advance_inert inert)
  intro argument s' t' twin'
  rw [run_bind_ok (run_get s'), run_bind_ok (run_get t'),
    State.spanFrom_behind (twin'.last rfl)]
  exact .ok twin'

theorem simple_parallel (twin : Twin w known k s t) (inert : s.peek.kind.isInert = true)
    {f : Span → Stmt} (moved : ∀ span, f (span.behind w.before) = (f span).behind w.before) :
    Parallel w k (Stmt.behind w.before) ((advance >>= fun first => pure (f first.span)).run s)
      ((advance >>= fun first => pure (f first.span)).run t) := by
  apply (twin.run_advance inert).bind
  intro first
  rw [Token.behind_span, moved]
  exact tracks_pure (f first.span)

theorem directive_parallel (twin : Twin w known k s t) (inert : s.peek.kind.isInert = true) :
    ∃ j, Parallel w j (Stmt.behind w.before) (directive.run s) (directive.run t) := by
  have named := twin.advance_inert inert
  obtain ⟨j, behind⟩ := named.skipLine
  refine ⟨j, ?_⟩
  rw [directive, run_bind_ok (run_advance s), run_bind_ok (run_advance t),
    run_bind_ok (run_get s.advance), run_bind_ok (run_get t.advance), named.lineText, twin.peek]
  have span := State.spanFrom_behind (behind.last rfl) s.peek
  change Parallel w j _
    (Except.ok (Stmt.directive _ _ (s.advance.skipLine.spanFrom s.peek)), s.advance.skipLine)
    (Except.ok (Stmt.directive _ _ (t.advance.skipLine.spanFrom (s.peek.behind w.before))),
    t.advance.skipLine)
  rw [span]
  exact .ok behind

/-- A statement on the line is read the same in the script. -/
theorem statement_parallel (h : inner.Mirrored w) (twin : Twin w known k s t)
    (other : s.peek.kind ≠ .newline) : ∃ j,
    Parallel w j (Stmt.behind w.before) ((statement inner).run s) ((statement inner).run t) := by
  have stays := twin.local_peek other
  have inert : ∀ {kind : Kind}, s.peek.kind = kind → kind.isInert = true →
      s.peek.kind.isInert = true := by
    rintro kind rfl
    exact id
  rw [statement, run_bind_ok (run_get s), run_bind_ok (run_get t), twin.peek, Token.behind_kind]
  split
  case h_6 kind => exact ⟨k, returns_parallel h twin (inert kind rfl)⟩
  case h_7 kind => exact ⟨k, simple_parallel twin (inert kind rfl) fun _ => rfl⟩
  case h_8 kind => exact ⟨k, simple_parallel twin (inert kind rfl) fun _ => rfl⟩
  case h_10 kind => exact directive_parallel twin (inert kind rfl)
  case h_11 =>
    rw [twin.atFunction.1, twin.atFunction.2]
    refine ⟨k, ?_⟩
    apply (expression_mirrored h known k s t twin).bind
    intro e
    rw [Expr.behind_span]
    exact tracks_pure (Stmt.expression e e.span)
  all_goals
    next kind =>
      rw [kind] at stays
      cases stays

end Parser

/-- Both readers have the line behind them. -/
structure Passed (w : Around) (s t : State) : Prop where
  done : s.ahead = []
  ahead : t.ahead = w.rest
  depth : t.depth = s.depth + w.depth
  source : t.source = w.before ++ (s.source ++ w.after)
  skipped : t.skipped = s.skipped.map (Skipped.behind w.before) ++ w.skipped

/-- The two readers stand at the same place of the line or have passed it. -/
def Abreast (w : Around) (s t : State) : Prop := (∃ k, Twin w false k s t) ∨ Passed w s t

/-- Both readers have just consumed the same token, and stand behind the line if it was the line
break. -/
inductive Consumed (w : Around) (s t : State) : Prop
  | on {k} : s.last.kind ≠ .newline → Twin w true k s t → Consumed w s t
  | past : s.last.kind = .newline → t.last = s.last.behind w.before → Passed w s t → Consumed w s t

section Recovery

variable {w : Around} {known : Bool} {k : Nat} {s t : State}

theorem Consumed.last (h : Consumed w s t) : t.last = s.last.behind w.before := by
  cases h with
  | on _ twin => exact twin.last rfl
  | past _ last _ => exact last

theorem Consumed.abreast (h : Consumed w s t) : Abreast w s t := by
  cases h with
  | on _ twin => exact .inl ⟨_, twin.weaken⟩
  | past _ _ passed => exact .inr passed

theorem Twin.consume (h : Twin w known k s t) : Consumed w s.advance t.advance := by
  obtain ⟨rest, here, there⟩ := h.cons
  have last : s.advance.last = s.peek := by rw [State.advance_of_cons here]
  by_cases feed : s.peek.kind = .newline
  · have line := h.line
    rw [here, OnLine, if_pos feed] at line
    rw [line.2] at here there
    rw [State.advance_of_cons here, State.advance_of_cons there]
    exact .past feed rfl ⟨rfl, rfl, h.depth, h.source, h.skipped⟩
  · exact .on (by rw [last]; exact feed) (h.advance feed)

/-- Words at which recovery stops. -/
def Kind.resumes : Kind → Bool
  | kwClass | kwIf | kwWhile | kwFor | kwReturn => true
  | _ => false

theorem synchronize_go_cons (u : Token) (rest : List Token) (s : State) :
    State.synchronize.go (u :: rest) s =
      if s.last.kind = .newline ∨ u.kind.resumes = true then s else State.synchronize.go rest
        s.advance := by
  rw [State.synchronize.go]
  by_cases feed : s.last.kind = .newline
  · rw [if_pos feed, if_pos (.inl feed)]
  · rw [if_neg feed]
    cases u.kind <;> simp [Kind.resumes, feed]

theorem synchronize_go_of_newline (ts : List Token) {s : State} (feed : s.last.kind = .newline) :
    State.synchronize.go ts s = s := by
  cases ts with
  | nil => rfl
  | cons u rest => rw [synchronize_go_cons, if_pos (.inl feed)]

theorem Consumed.synchronize_go (h : Consumed w s t) :
    Consumed w (State.synchronize.go s.ahead s) (State.synchronize.go t.ahead t) := by
  -- by induction on what is left of the line; the reader of the line alone stops where its tokens
  -- end
  induction size : s.ahead.length generalizing s t with
  | zero =>
      have nothing := List.length_eq_zero_iff.mp size
      cases h with
      | on _ twin =>
          obtain ⟨rest, here, _⟩ := twin.cons
          rw [nothing] at here
          cases here
      | past feed last passed =>
          have feed' : t.last.kind = .newline := by
            rw [last]
            exact feed
          rw [synchronize_go_of_newline _ feed, synchronize_go_of_newline _ feed']
          exact .past feed last passed
  | succ n ih =>
      cases h with
      | past _ _ passed =>
          rw [passed.done] at size
          cases size
      | on other twin =>
          obtain ⟨rest, here, there⟩ := twin.cons
          rw [here, there, synchronize_go_cons, synchronize_go_cons, twin.last rfl,
            Token.behind_kind, Token.behind_kind]
          split
          · exact .on other twin
          · have next := ih twin.consume
              (by rw [State.advance_of_cons here]; rw [here] at size; exact Nat.succ.inj size)
            rw [State.advance_of_cons here, State.advance_of_cons there] at next ⊢
            exact next

/-- Recovery leaves both readers at the same place. -/
theorem Twin.recover (h : Twin w known k s t) (first : Token) (e : ParseError) :
    Abreast w (s.recover first e) (t.recover (first.behind w.before) (e.behind w.before)) := by
  have reached : Consumed w s.synchronize t.synchronize := h.consume.synchronize_go
  have noted (same : t.synchronize.skipped = s.synchronize.skipped.map (Skipped.behind w.before) ++
      w.skipped) : (t.recover (first.behind w.before) (e.behind w.before)).skipped =
        (s.recover first e).skipped.map (Skipped.behind w.before) ++ w.skipped := by
    change _ :: t.synchronize.skipped = _ :: s.synchronize.skipped.map _ ++ _
    rw [same, State.spanFrom_behind reached.last]
    rfl
  rcases reached.abreast with ⟨j, twin⟩ | passed
  · exact .inl
      ⟨j, twin.ahead, twin.line, nofun, twin.depth, twin.source, twin.inside, noted twin.skipped⟩
  · exact .inr ⟨passed.done, passed.ahead, passed.depth, passed.source, noted passed.skipped⟩

/-- One statement on the line: both readers give the same one or drop it, and are abreast again,
unless the reader in the script has met the depth limit. -/
theorem recovered_abreast (h : Twin w known k s t) (other : s.peek.kind ≠ .newline) :
    (∃ stmt s' t', (recovered rules).run s = (.ok stmt, s') ∧
        (recovered rules).run t = (.ok (stmt.map (Stmt.behind w.before)), t') ∧ Abreast w s' t') ∨
      0 < w.depth ∧ ∃ stmt t', (recovered rules).run t = (.ok stmt, t') ∧
        ∃ entry ∈ t'.skipped, entry.error.cause.isLimit = true := by
  have began : Twin w known k s.begin t.begin :=
    ⟨h.ahead, h.line, h.last, h.depth, h.source, h.inside, h.skipped⟩
  obtain ⟨j, inside⟩ := statement_parallel rules_mirrored began.deepen other
  rw [← rules_statement] at inside
  have outcome := Parallel.nested began rules_returns.statement.climbs inside
  rw [run_recovered, run_recovered, h.peek]
  generalize (nested rules.statement).run s.begin = here at outcome
  generalize (nested rules.statement).run t.begin = there at outcome
  cases outcome with
  | ok twin => exact .inl ⟨_, _, _, rfl, rfl, .inl ⟨_, twin.weaken⟩⟩
  | failed twin => exact .inl ⟨_, _, _, rfl, rfl, twin.recover _ _⟩
  | limit deep cause => exact .inr ⟨deep, _, _, rfl, _, List.mem_cons_self, cause⟩

end Recovery

end ScriptLens
