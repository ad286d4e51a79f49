import ScriptLens.Proofs.Loops.Bodies

/-!
Each rule for a statement, and with it the whole script: what it consumes tells of the loops in what
it gives. A loop is read as its keyword, a calm header and a body; that the body is a block is known
from the brace in front of it.
-/

namespace ScriptLens

open ParseM ScriptLens.Parser Lint

/-- Of tokens in order, those that a span over a stretch reaches are in the stretch. -/
theorem Span.Over.mem {span : Span} {front ts back : List Token} {t : Token}
    (order : InOrder (front ++ (ts ++ back))) (h : span.Over ts)
    (member : t ∈ front ++ (ts ++ back)) (start : span.start.offset ≤ t.start.offset)
    (stop : t.stop.offset ≤ span.stop.offset) : t ∈ ts := by
  have wide := order.nonempty t member
  obtain ⟨first, head, begins⟩ := h.first
  obtain ⟨last, final, ends⟩ := h.last
  rw [begins] at start
  rw [ends] at stop
  rcases List.mem_append.mp member with before | rest
  · have := order.le before (List.mem_append_left back (List.mem_of_head? head))
    omega
  · rcases List.mem_append.mp rest with here | behind
    · exact here
    · have := order.right.le (List.mem_of_getLast? final) behind
      omega

namespace Parser

open Stmt

variable {all : List Token} {opens : Position → Bool} {s t : State} {ts us : List Token}
  {inner : Level}

theorem alternate_tells (h : inner.Nests all opens) (standing : Standing all s) :
    Takes s (alternate inner) fun rest ts t =>
    Undropped s t (Tells all opens (loopsOfAlternate opens · rest) (listsOfAlternate rest) ts) := by
  have closed := standing.orderly.closed
  have chained {t : State} (standing : Standing all t)
      (kind : t.peek.kind = .kwIf ∨ t.peek.kind = .kwElseIf) :
      Takes t (nested inner.ifChain >>= fun chain => pure (Alternate.elseIf chain)) fun rest ts u =>
        Undropped t u
            (Tells all opens (loopsOfAlternate opens · rest) (listsOfAlternate rest) ts) := by
    have chain := Takes.nested (h.ifChain _ standing.deeper kind) fun _ _ _ _ => id
    refine chain.bind ?_
    intro chain ts u _ told
    refine takes_pure ?_
    rw [List.append_nil]
    exact told
  apply takes_get
  split
  · next here =>
      refine takes_front (R := fun _ t => t.peek.kind = .kwElseIf) standing lenient_tells
        ((Calm.skipNewlines s closed).and (takes_before here)) ?_
      exact fun _ t standing kind => chained standing (.inr kind)
  · apply takes_get
    split
    · next here =>
        refine takes_front (R := fun _ t => t.peek.kind = .kwElse) standing lenient_tells
          ((Calm.skipNewlines s closed).and (takes_before here)) ?_
        intro _ t standing kind
        have word := advance_calm standing.orderly.closed (by rw [kind]; decide) (by rw [kind]; rfl)
        refine word.front standing lenient_tells ?_
        intro _ u standing
        refine takes_front (R := fun found v => found = v.check .kwIf) standing lenient_tells ?_ ?_
        · refine ((Calm.check .kwIf u standing.orderly.closed).and (takes_check .kwIf)).weaken ?_
          rintro found ts v _ ⟨calm, _, rfl, found⟩
          exact ⟨calm, found⟩
        · rintro _ v standing rfl
          split
          · next found => exact chained standing (.inl (of_decide_eq_true found))
          · refine (body_bodied h standing).bind ?_
            intro body ts w _ told
            refine takes_pure ?_
            rw [List.append_nil]
            exact told.imp Bodied.tells
    · exact takes_pure (undropped rfl fun _ => counted_calm .nil)

theorem ifChain_tells (h : inner.Nests all opens) (standing : Standing all s)
    (kind : s.peek.kind = .kwIf ∨ s.peek.kind = .kwElseIf) :
    Takes s (ifChain inner) fun chain ts t =>
      Undropped s t (Tells all opens (loopsOfChain opens · chain) (listsOfChain chain) ts) := by
  have first :=
    advance_calm standing.orderly.closed (by rcases kind with kind | kind <;> rw [kind] <;> decide)
    (by rcases kind with kind | kind <;> rw [kind] <;> rfl)
  refine first.front standing lenient_tells fun first t standing => ?_
  refine (expression_calm h.derived h.returns).front standing lenient_tells
    fun test u standing => ?_
  refine (body_bodied h standing).bind ?_
  intro consequent ts v taken told
  refine (alternate_tells h (standing.taken taken)).bind ?_
  intro rest us w _ told'
  apply takes_get
  refine takes_pure ((told.trans told').imp fun ⟨bodied, tells⟩ => ?_)
  rw [List.append_nil]
  exact bodied.tells.append tells

section Statements

variable {f : List Stmt → State → Stmt} {first : Token}

/-- The end of a loop: its body. -/
theorem body_repeats (h : inner.Nests all opens) (standing : Standing all s)
    (loop : ∀ body t, (f body t).loopBody? = some body)
    (start : ∀ body t, (f body t).span.start = first.start) :
    Takes s (body inner >>= fun stmts => get >>= fun t => pure (f stmts t)) fun stmt ts t =>
      Undropped s t (Repeats all opens first stmt ts) := by
  refine (body_bodied h standing).bind ?_
  intro stmts ts t _ told
  apply takes_get
  refine takes_pure (told.imp fun bodied => ?_)
  rw [List.append_nil]
  exact ⟨stmts, loop stmts t, start stmts t, bodied⟩

/-- The end of a statement that is no loop: its statements. -/
theorem closing_headed {m : ParseM (List Stmt)} (told : Takes s m fun body ts t =>
    Undropped s t (Tells all opens (loopsIn opens · body) (lists body) ts))
    (loops : ∀ body t, (loopsOf opens · (f body t)) = (loopsIn opens · body))
    (inside : ∀ body t, listsOf (f body t) = lists body) :
    Takes s (m >>= fun stmts => get >>= fun t => pure (f stmts t)) fun stmt ts t =>
      Undropped s t (Headed all opens stmt ts) := by
  refine told.bind ?_
  intro stmts ts t _ told
  apply takes_get
  refine takes_pure (told.imp fun tells braced => .inl ?_)
  rw [loops, List.append_nil]
  exact tells (inside stmts t ▸ braced)

/-- The start of a loop: its keyword. -/
theorem keyword_headed {g : Token → ParseM Stmt} (standing : Standing all s)
    (kind : s.peek.kind.isLoop = true) (rest : ∀ t, Standing all t →
      Takes t (g s.peek) fun stmt us u => Undropped t u (Repeats all opens s.peek stmt us)) :
    Takes s (advance >>= g) fun stmt ts t => Undropped s t (Headed all opens stmt ts) := by
  have other : s.peek.kind ≠ .eof := fun atEnd => by rw [atEnd] at kind; cases kind
  refine ((takes_advance standing.orderly.closed other).quiet returns_advance.climbs).bind ?_
  rintro _ _ t taken ⟨same, rfl, rfl, _⟩
  refine (rest t (standing.taken taken)).weaken ?_
  intro stmt us u _ told none
  obtain ⟨none', repeats⟩ := told none
  exact ⟨same ▸ none', repeats.headed kind⟩

theorem whileLoop_headed (h : inner.Nests all opens) (standing : Standing all s)
    (kind : s.peek.kind = .kwWhile) :
    Takes s (whileLoop inner) fun stmt ts t => Undropped s t (Headed all opens stmt ts) := by
  refine keyword_headed standing (by rw [kind]; rfl) fun t standing => ?_
  refine (expression_calm h.derived h.returns).front standing lenient_repeats
    fun test u standing => ?_
  exact body_repeats h standing (fun _ _ => rfl) fun _ t => start_spanFrom t _

theorem forLoop_headed (h : inner.Nests all opens) (standing : Standing all s)
    (kind : s.peek.kind = .kwFor) :
    Takes s (forLoop inner) fun stmt ts t => Undropped s t (Headed all opens stmt ts) := by
  refine keyword_headed standing (by rw [kind]; rfl) fun t standing => ?_
  refine (Calm.eat (by decide) rfl).front standing lenient_repeats
    fun parenthesized u standing => ?_
  refine loopVariables_calm.front standing lenient_repeats fun names v standing => ?_
  refine (Calm.expect (by decide) rfl _).front standing lenient_repeats fun _ w standing => ?_
  refine (expression_calm h.derived h.returns).front standing lenient_repeats
    fun test x standing => ?_
  refine (closeHeader_calm parenthesized).front standing lenient_repeats fun _ y standing => ?_
  exact body_repeats h standing (fun _ _ => rfl) fun _ t => start_spanFrom t _

theorem loop_headed (h : inner.Nests all opens) (standing : Standing all s)
    (kind : s.peek.kind = .kwLoop) :
    Takes s (loop inner) fun stmt ts t => Undropped s t (Headed all opens stmt ts) := by
  refine keyword_headed standing (by rw [kind]; rfl) fun t standing => ?_
  refine (operand?_calm h.derived h.returns _).front standing lenient_repeats
    fun count u standing => ?_
  exact body_repeats h standing (fun _ _ => rfl) fun _ t => start_spanFrom t _

/-- Line breaks and a block. -/
theorem skipped_block (h : inner.Nests all opens) (standing : Standing all s) :
    Takes s (skipNewlines >>= fun _ => block inner) fun body ts t =>
      Undropped s t (Tells all opens (loopsIn opens · body) (lists body) ts) := by
  refine Calm.skipNewlines.front standing lenient_tells fun _ t standing => ?_
  exact (block_tells h standing).weaken fun _ _ _ _ told => told.imp fun block braced =>
    (block braced).counted

theorem function_headed (h : inner.Nests all opens) (standing : Standing all s) :
    Takes s (function inner) fun stmt ts t => Undropped s t (Headed all opens stmt ts) := by
  apply takes_get
  refine (Calm.eat (by decide) rfl).front standing lenient_headed fun isStatic t standing => ?_
  refine (Calm.expect (by decide) rfl _).front standing lenient_headed fun name u standing => ?_
  refine (Calm.expect (by decide) rfl _).front standing lenient_headed fun _ v standing => ?_
  have list : Calm (params inner) := inParens_calm (param_calm h.derived h.returns) _
  refine list.front standing lenient_headed fun params w standing => ?_
  exact closing_headed (skipped_block h standing) (fun _ _ => rfl) fun _ _ => rfl

theorem classDecl_headed (h : inner.Nests all opens) (standing : Standing all s)
    (kind : s.peek.kind = .kwClass) :
    Takes s (classDecl inner) fun stmt ts t => Undropped s t (Headed all opens stmt ts) := by
  have first := advance_calm standing.orderly.closed (by rw [kind]; decide) (by rw [kind]; rfl)
  refine first.front standing lenient_headed fun first t standing => ?_
  refine (Calm.expect (by decide) rfl _).front standing lenient_headed fun name u standing => ?_
  refine superClass?_calm.front standing lenient_headed fun base v standing => ?_
  exact closing_headed (skipped_block h standing) (fun _ _ => rfl) fun _ _ => rfl

theorem hotkey_headed (h : inner.Nests all opens) (standing : Standing all s)
    (kind : s.peek.kind = .hotkey) :
    Takes s (hotkey inner) fun stmt ts t => Undropped s t (Headed all opens stmt ts) := by
  have first := advance_calm standing.orderly.closed (by rw [kind]; decide) (by rw [kind]; rfl)
  refine first.front standing lenient_headed fun first t standing => ?_
  refine closing_headed ?_ (fun _ _ => rfl) fun _ _ => rfl
  apply takes_get
  split
  · exact skipped_block h standing
  · split
    · exact (statementsUntil_tells h _ standing).weaken fun _ _ _ _ told => told.imp And.left
    · refine (recovered_told h standing).bind ?_
      intro stmt ts u _ told
      refine takes_pure fun none => ?_
      obtain ⟨none', x, rfl, read⟩ := told none
      refine ⟨none', fun braced => ?_⟩
      obtain ⟨here, inside⟩ := braced.of_lists (List.mem_singleton.mpr rfl)
      simpa only [Option.toList, loopsIn, List.append_nil] using read.loops here inside

theorem simple_headed (standing : Standing all s) (other : s.peek.kind ≠ .eof)
    (calm : s.peek.kind.isCalm = true)
    {f : Span → Stmt} (loops : ∀ span, (loopsOf opens · (f span)) = fun _ => []) :
    Takes s (advance >>= fun t => pure (f t.span)) fun stmt ts t =>
    Undropped s t (Headed all opens stmt ts) := by
  refine (advance_calm standing.orderly.closed other calm).front standing lenient_headed
    fun t u _ => ?_
  exact takes_pure (undropped rfl fun _ => .inl (by rw [loops]; exact counted_calm .nil))

/-- A directive takes the rest of its line. -/
theorem takes_skipLine : Takes s (modify State.skipLine : ParseM PUnit) fun _ ts t =>
    t.skipped = s.skipped ∧ ∀ t ∈ ts, t.kind ≠ .newline := by
  have split : s.ahead = s.restOfLine ++ s.ahead.dropWhile (·.kind != .newline) :=
    List.takeWhile_append_dropWhile.symm
  intro _ t run
  cases run
  refine ⟨s.restOfLine, ⟨?_, ?_⟩, ?_, ?_⟩
  · rw [State.skipLine, consumeAll_eq _ s split]
    exact split
  · rw [State.skipLine, consumeAll_eq _ s split]
  · rw [State.skipLine, consumeAll_eq _ s split]
  · intro t member
    simpa using List.mem_takeWhile_imp member

theorem directive_headed (plain : Token.plainDirectives false all = true)
    (standing : Standing all s) (kind : s.peek.kind = .directive) :
    Takes s directive fun stmt ts t => Undropped s t (Headed all opens stmt ts) := by
  obtain ⟨front, place⟩ := standing.inside
  refine ((takes_advance standing.orderly.closed (by rw [kind]; decide)).quiet
    returns_advance.climbs).bind ?_
  rintro _ _ t taken ⟨same, rfl, rfl, _⟩
  apply takes_get
  refine takes_skipLine.bind ?_
  rintro _ value u taken' ⟨same', line⟩
  apply takes_get
  refine takes_pure (undropped (same'.trans same) fun _ => .inl ?_)
  have calm : Token.Calm value := by
    rw [place, taken.ahead, taken'.ahead] at plain
    exact Token.calm_value plain kind line
  have whole : Token.Calm (s.peek :: value) := .cons (by rw [kind]; rfl) calm
  rw [List.append_nil]
  exact counted_calm whole

theorem statement_headed (h : inner.Nests all opens)
    (plain : Token.plainDirectives false all = true) (standing : Standing all s) :
    Takes s (statement inner) fun stmt ts t => Undropped s t (Headed all opens stmt ts) := by
  apply takes_get
  split
  case h_1 kind =>
    refine (ifChain_tells h standing (.inl kind)).bind ?_
    intro chain ts t _ told
    refine takes_pure (told.imp fun tells braced => .inl ?_)
    rw [List.append_nil]
    exact tells braced
  case h_2 kind => exact whileLoop_headed h standing kind
  case h_3 kind => exact forLoop_headed h standing kind
  case h_4 kind => exact loop_headed h standing kind
  case h_5 kind => exact classDecl_headed h standing kind
  case h_6 kind =>
    have first := advance_calm standing.orderly.closed (by rw [kind]; decide) (by rw [kind]; rfl)
    refine first.front standing lenient_headed fun first t standing => ?_
    refine (operand?_calm h.derived h.returns _).front standing lenient_headed
      fun argument u _ => ?_
    apply takes_get
    exact takes_pure (undropped rfl fun _ => .inl (counted_calm .nil))
  case h_7 kind =>
    exact simple_headed standing (by rw [kind]; decide) (by rw [kind]; rfl) fun _ => rfl
  case h_8 kind =>
    exact simple_headed standing (by rw [kind]; decide) (by rw [kind]; rfl) fun _ => rfl
  case h_9 kind => exact hotkey_headed h standing kind
  case h_10 kind => exact directive_headed plain standing kind
  case h_11 =>
    split
    · exact function_headed h standing
    · refine (expression_calm h.derived h.returns).front standing lenient_headed fun e t _ => ?_
      exact takes_pure (undropped rfl fun _ => .inl (counted_calm .nil))

/-- A statement that is no expression runs over all of its tokens. -/
theorem Stands.over {stmt : Stmt} {ps : List Piece} (h : Stands stmt ps) (laid : Laid s ps t)
    (other : stmt.isExpression = false) : stmt.span.Over (Piece.leaves ps) := by
  obtain ⟨core, rfl⟩ := h.flush other
  have sound :
    Piece.Sound (t.ahead ++ [t.final]) ([] ++ Piece.node stmt.span core :: []) := laid.sound
  rw [Piece.leaves_node, Piece.leaves_nil, List.append_nil]
  exact sound.covers

/-- In front of a statement there are no braces among its tokens, but parentheses at most. -/
theorem Stands.behind {stmt : Stmt} {ps : List Piece} (h : Stands stmt ps) (laid : Laid s ps t)
    (orderly : s.Orderly) : ∀ brace ∈ Piece.leaves ps, brace.kind = .lBrace →
    stmt.span.start.offset < brace.stop.offset := by
  intro brace member kind
  have order := laid.order orderly
  obtain ⟨parens, core, closes, rfl, before, _, _⟩ := h.shape
  obtain ⟨first, head, start⟩ := laid.sound.covers.first
  rw [Piece.leaves_append, Piece.leaves_tokens, Piece.leaves_node] at member order
  have wide := order.nonempty brace member
  rcases List.mem_append.mp member with paren | behind
  · have := before brace paren
    rw [kind] at this
    cases this
  · have least := order.right.head_le (by rw [List.head?_append, head]; rfl) behind
    rw [start]
    omega

/-- A loop with braces was read with them: the brace is among the tokens of the loop, and in front
of its statements. -/
theorem statement_told (h : inner.Nests all opens) (plain : Token.plainDirectives false all = true)
    (standing : Standing all s) : Takes s (statement inner) fun stmt ts t =>
    Undropped s t (Told all opens stmt ts) := by
  intro stmt t run
  obtain ⟨ts, taken, headed⟩ := statement_headed h plain standing stmt t run
  have ends := statement_stands h.stands s standing.orderly
  rw [run] at ends
  obtain ⟨ps, laid, stands⟩ := ends
  have same : Piece.leaves ps = ts := List.append_cancel_right (laid.ahead.symm.trans taken.ahead)
  subst same
  refine ⟨_, taken,
    headed.imp fun headed => ⟨fun here braced => ?_, stands.behind laid standing.orderly⟩⟩
  rcases headed braced with counted | ⟨body, loop, unbraced⟩
  · exact counted
  · obtain ⟨brace, member, kind, start, stop, before⟩ := here body loop
    have covers := stands.over laid (by cases stmt <;> first | rfl | cases loop)
    obtain ⟨front, place⟩ := standing.inside
    have order := standing.order
    rw [place, taken.ahead] at order member
    obtain ⟨first, inside, later⟩ := unbraced brace (covers.mem order member start stop) kind
    exact absurd (before first inside) (Nat.not_le.mpr later)

end Statements

theorem tower_nests (plain : Token.plainDirectives false all = true) (levels : Nat) :
    (tower levels).Nests all opens := by
  induction levels with
  | zero =>
      exact ⟨tower_stands 0, tower_sound 0, tower_returns 0, fun _ _ _ => takes_refuse _,
        fun _ _ => takes_refuse _⟩
  | succ levels ih =>
      exact ⟨tower_stands (levels + 1), tower_sound (levels + 1), tower_returns (levels + 1),
        fun _ => ifChain_tells ih, fun _ => statement_told ih plain⟩

theorem script_tells (opens : Position → Bool) (orderly : s.Orderly)
    (plain : Token.plainDirectives false s.ahead = true) : Takes s script fun body ts t =>
    Undropped s t (Tells s.ahead opens (loopsIn opens · body) (lists body) ts) := by
  have standing : Standing s.ahead s := ⟨orderly.order, orderly, [], rfl⟩
  exact (statementsUntil_tells (tower_nests plain _) _ standing).weaken fun _ _ _ _ told =>
    told.imp And.left

end Parser

namespace Scanned

variable {source : String} {front : List Token} {last : Token}

theorem braced_ahead (h : Scanned source front last) {lists : List (List Stmt)}
    (braced : Stmt.AllBraced (front ++ [last]) lists) :
    Stmt.AllBraced (State.ofTokens source (front ++ [last])).ahead lists := by
  refine braced.mono fun brace member kind => ?_
  rw [(State.ofTokens_split source h.closing h.others).2.1]
  refine List.mem_filter.mpr ⟨?_, by rw [kind]; rfl⟩
  rcases List.mem_append.mp member with inside | final
  · exact inside
  · rw [List.mem_singleton.mp final, h.closing] at kind
    cases kind

/-- The tokens that the parser reads tell the same as all tokens. -/
theorem depths_ahead (h : Scanned source front last) (opens : Position → Bool) :
    depths opens [] false (State.ofTokens source (front ++ [last])).ahead =
    depths opens [] false (front ++ [last]) := by
  have kept : (State.ofTokens source (front ++ [last])).ahead =
      (front ++ [last]).filter fun t => t.kind != .comment && t.kind != .eof := by
    rw [(State.ofTokens_split source h.closing h.others).2.1, List.filter_append]
    have solid : ∀ t ∈ front, (t.kind != .comment) = (t.kind != .comment && t.kind != .eof) :=
        fun t member => by
      simp [h.others t member]
    rw [List.filter_congr solid]
    simp [h.closing]
  rw [kept]
  refine depths_filter _ fun t _ left => ?_
  have kind :
    t.kind = .comment ∨ t.kind = .eof := by simpa [Decidable.or_iff_not_imp_left] using left
  rcases kind with kind | kind <;> rw [kind] <;> rfl

/-- Of a script in which nothing was dropped and all loops have braces, the tokens tell the loops of
the tree. -/
theorem depths_eq (h : Scanned source front last) (opens : Position → Bool)
    (plain : Token.plainDirectives false (front ++ [last]) = true)
    (clean : (parseTokens source (front ++ [last])).skipped = []) (braced : Stmt.AllBraced
      (front ++ [last]) (Stmt.lists (parseTokens source (front ++ [last])).program.body)) :
    depths opens [] false (front ++ [last]) =
      Stmt.loopsIn opens 0 (parseTokens source (front ++ [last])).program.body := by
  have calm :
      Token.plainDirectives false (State.ofTokens source (front ++ [last])).ahead = true := by
    rw [(State.ofTokens_split source h.closing h.others).2.1]
    exact Token.plainDirectives_filter (Token.plainDirectives_take plain)
  obtain ⟨body, t, run, atEnd⟩ := script_ok h.orderly.closed
  obtain ⟨same, skipped⟩ := parseTokens_of_run run
  obtain ⟨ts, taken, told⟩ := script_tells opens h.orderly calm body t run
  have none : t.skipped = [] := by simpa [skipped] using clean
  have counted := (told none).2 (same ▸ h.braced_ahead braced) [] t.ahead
  rw [← taken.ahead, h.depths_ahead, List.isEmpty_iff.mp atEnd, depths, List.append_nil] at counted
  rw [same]
  exact counted

end Scanned

end ScriptLens
