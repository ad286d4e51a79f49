import ScriptLens.Proofs.Spans.Layout

/-!
Where expressions sit. The span of an expression runs over the tokens it was read from, less the
parentheses around them: those at its edges stand outside, whether they group the whole of it or
only its first or last operand.
-/

namespace ScriptLens

open Piece ParseM

namespace Parser

/-- The pieces of an expression: a node, with opening parentheses before it and closing ones behind
it. -/
structure Sits (e : Expr) (ps : List Piece) : Prop where
  shape : ∃ (opens : List Token) (core : List Piece) (closes : List Token),
    ps = opens.map token ++ node e.span core :: closes.map token ∧ (∀ t ∈ opens, t.kind = .lParen) ∧
      (∀ t ∈ closes, t.kind = .rParen) ∧ SpanTree.node e.span (trees core) = e.spans
  even : Braced 0 ps

variable {α : Type} {inner : Level} {s t u : State} {ps qs : List Piece} {e : Expr}

theorem Sits.row (h : Sits e ps) : Row false [e.spans] ps := by
  obtain ⟨opens, core, closes, rfl, _, _, tree⟩ := h.shape
  refine ⟨nofun, ?_, h.even⟩
  simp [tree]

theorem Sits.gather (opens closes : List Token) {parts : List Piece}
    (laid : Laid s (opens.map token ++ (parts ++ closes.map token)) t)
    (covers : e.span.Over (leaves parts))
    (tree : SpanTree.node e.span (trees parts) = e.spans) (before : ∀ t ∈ opens, t.kind = .lParen)
    (behind : ∀ t ∈ closes, t.kind = .rParen)
    (even : Braced 0 (opens.map token ++ (parts ++ closes.map token))) :
    ∃ ps, Laid s ps t ∧ Sits e ps :=
  ⟨_, laid.wrap covers, ⟨opens, parts, closes, rfl, before, behind, tree⟩, even.wrap⟩

/-- The rule gives an expression and its pieces. -/
abbrev Seats (m : ParseM Expr) : Prop := Gives m Sits

theorem Seats.views {m : ParseM Expr} (h : Seats m) : Views m fun e => [e.spans] :=
  fun s orderly => (h s orderly).weaken fun _ _ sits => sits.row

theorem primaryToken_ends (orderly : s.Orderly) (plain : s.peek.kind.isPlain = true)
    (span : e.span = s.peek.span)
    (tree : e.spans = .node e.span []) : Ends s Sits ((advance >>= fun _ => pure e).run s) := by
  apply From.advance (P := (· = [])) orderly .refl rfl plain
  rintro _ t laid ⟨_, rfl, rfl⟩
  have covers : e.span.Over (leaves [token s.peek]) := by
    rw [span]
    exact Span.over_token s.peek
  exact Sits.gather [] [] laid covers tree.symm (by simp) (by simp) (braced_nil.push plain)

theorem group_ends (h : Seats (expression inner)) (orderly : s.Orderly)
    (kind : s.peek.kind = .lParen) : Ends s Sits ((advance >>= fun _ =>
      expression inner >>= fun e => expect .rParen .closeGroup >>= fun _ => pure e).run s) := by
  have plain : s.peek.kind.isPlain = true := by
    rw [kind]
    rfl
  have even := Then.even (t := s.peek) braced_of_nil plain
  apply From.advance (P := (· = [])) orderly .refl rfl plain
  apply (h.behind orderly even).bind
  intro e
  have even' : ∀ ps, (∃ qs rs, Then (· = []) s.peek qs ∧ Sits e rs ∧ ps = qs ++ rs) →
      Braced 0 ps := by
    rintro _ ⟨qs, rs, first, sits, rfl⟩
    exact (even qs first).append sits.even
  apply (From.expect orderly rfl (by decide) even').bind
  intro close
  apply From.pure
  rintro _ ⟨⟨_, ⟨_, rs, ⟨_, rfl, rfl⟩, sits, rfl⟩, rfl⟩, closing⟩
  obtain ⟨opens, core, closes, rfl, before, behind, tree⟩ := sits.shape
  constructor
  · refine ⟨s.peek :: opens, core, closes ++ [close], by simp, ?_, ?_, tree⟩
    · simpa [kind] using before
    · intro t member
      rcases List.mem_append.mp member with inside | last
      · exact behind t inside
      · rw [List.mem_singleton.mp last]
        exact closing
  · exact ((braced_nil.push plain).append sits.even).push (by rw [closing]; rfl)

theorem primary_seats (h : Seats (expression inner)) : Seats (primary inner) := by
  intro s orderly
  rw [primary, run_bind_ok (run_get s)]
  dsimp only
  split
  case h_8 kind => exact group_ends h orderly kind
  case h_9 => exact From.refuse _ (by decide) braced_of_nil [] s .refl rfl
  all_goals
    next kind => exact primaryToken_ends orderly (by rw [kind]; rfl) rfl rfl

/-- An expression with more pieces behind it, all of them part of the new one. -/
theorem Sits.extend (orderly : s.Orderly) {e' : Expr} {more : List Piece} (sits : Sits e ps)
    (laid : Laid s (ps ++ more) t) (some : leaves more ≠ []) (even : Braced 0 more)
    (span : e'.span = e.span.cover t.last.span)
    (tree : e'.spans = .node e'.span (e.spans :: trees more)) : ∃ qs, Laid s qs t ∧ Sits e' qs := by
  obtain ⟨opens, core, closes, rfl, before, behind, tree'⟩ := sits.shape
  have whole : Braced 0 _ := sits.even.append even
  have shape : opens.map token ++ node e.span core :: closes.map token ++ more =
      opens.map token ++ ((node e.span core :: closes.map token ++ more) ++ [].map token) := by simp
  have last := laid.getLast (by simp [some])
  have order := laid.order orderly
  have sound := laid.sound
  rw [shape] at laid whole
  simp only [List.append_assoc, List.cons_append] at sound
  simp only [leaves_append, leaves_tokens, leaves_node, List.append_assoc] at order last
  apply Sits.gather opens [] laid ?_ ?_ before (by simp) whole
  · have final : (closes ++ leaves more).getLast? = Option.some t.last := by
      cases final : (closes ++ leaves more).getLast? with
      | none => simp [some] at final
      | some x =>
          rw [List.getLast?_append, List.getLast?_append, final] at last
          exact last
    rw [span]
    simpa using sound.covers.upTo order.right final
  · rw [tree, ← tree']
    simp

theorem Sits.join (orderly : s.Orderly) {a b : Expr} {operator : Token} (first : Sits a ps)
    (second : Sits b qs)
    (plain : operator.kind.isPlain = true) (laid : Laid s (ps ++ ([token operator] ++ qs)) t)
    (span : e.span = a.span.cover b.span) (tree : e.spans = .node e.span [a.spans, b.spans]) :
    ∃ rs, Laid s rs t ∧ Sits e rs := by
  obtain ⟨opens, core, closes, rfl, before, behind, tree'⟩ := first.shape
  obtain ⟨opens', core', closes', rfl, before', behind', tree''⟩ := second.shape
  have whole : Braced 0 _ := first.even.append ((braced_nil.push plain).append second.even)
  have shape : opens.map token ++ node a.span core :: closes.map token ++
      ([token operator] ++ (opens'.map token ++ node b.span core' :: closes'.map token)) =
      opens.map token ++
      ((node a.span core :: (closes ++ operator :: opens').map token ++ [node b.span core']) ++
        closes'.map token) := by simp
  have order := laid.order orderly
  have sound := laid.sound
  have covers : a.span.Over (leaves core) := by
    simp only [List.append_assoc, List.cons_append] at sound
    exact sound.covers
  have covers' : b.span.Over (leaves core') := (sound_append.mp (sound_append.mp sound).2).2.covers
  simp only [List.nil_append] at whole
  rw [shape] at laid whole order
  apply Sits.gather opens closes' laid ?_ ?_ before behind' whole
  · have inner : InOrder (leaves core ++ ((closes ++ operator :: opens') ++ leaves core')) := by
      have same : leaves (opens.map token ++ ((node a.span core ::
          (closes ++ operator :: opens').map token ++ [node b.span core']) ++ closes'.map token)) =
          opens ++
          ((leaves core ++ ((closes ++ operator :: opens') ++ leaves core')) ++ closes') := by simp
      rw [same] at order
      exact order.right.left
    rw [span]
    simpa using covers.cover inner covers'
  · rw [tree, ← tree', ← tree'']
    simp

theorem Sits.sign (orderly : s.Orderly) {a : Expr} {first : Token} (second : Sits a qs)
    (plain : first.kind.isPlain = true) (laid : Laid s (token first :: qs) t)
    (span : e.span = first.span.cover a.span) (tree : e.spans = .node e.span [a.spans]) :
    ∃ rs, Laid s rs t ∧ Sits e rs := by
  obtain ⟨opens, core, closes, rfl, before, behind, tree'⟩ := second.shape
  have whole : Braced 0 _ := (braced_nil.push plain).append second.even
  have shape : token first :: (opens.map token ++ node a.span core :: closes.map token) =
      [].map token ++
      ((token first :: opens.map token ++ [node a.span core]) ++ closes.map token) := by simp
  have order := laid.order orderly
  have covers : a.span.Over (leaves core) := by
    have sound := laid.sound
    rw [← List.cons_append] at sound
    exact sound.covers
  simp only [List.nil_append, List.cons_append] at whole
  rw [shape] at laid whole order
  apply Sits.gather [] closes laid ?_ ?_ (by simp) behind whole
  · have inner : InOrder ([first] ++ (opens ++ leaves core)) := by
      simp only [leaves_append, leaves_tokens, leaves_token, leaves_node, leaves_nil,
        List.append_nil, List.nil_append, List.cons_append] at order
      exact order.left
    rw [span]
    simpa using (Span.over_token first).cover inner covers
  · rw [tree, ← tree']
    simp

section Lists

variable {item : ParseM α} {v : α → SpanTree} {begun : Bool}

theorem itemLink_row (h : Views item fun a => [v a]) (orderly : s.Orderly) (items : List α) :
    From s (Row begun (items.reverse.map v)) (itemLink item items) fun next =>
    Row begun (next.1.reverse.map v) := by
  apply (h.row orderly).bind
  intro a
  have longer : items.reverse.map v ++ [v a] = (a :: items).reverse.map v := by simp
  rw [longer]
  apply (views_skipNewlines.skip orderly).bind
  intro _
  apply ((views_eat rfl).skip orderly).bind
  intro comma
  cases comma with
  | true => exact (views_skipNewlines.skip orderly).bind fun _ => row_pure rfl
  | false => exact row_pure rfl

theorem inParens_views (h : Views item fun a => [v a]) {closing : Expected}
    (other : closing ≠ .closeBlock) : Views (inParens item closing) fun items => items.map v := by
  apply views_skipNewlines.bind
  intro s _ orderly
  have close (items : List α) : From s (Row false (items.reverse.map v))
      (expect .rParen closing >>= fun _ => pure items.reverse) fun items =>
      Row false (items.map v) :=
    ((views_expect rfl other).skip orderly).bind fun _ => row_pure rfl
  apply From.check
  intro closed
  cases closed with
  | true => exact close []
  | false => exact (From.repeating (itemLink_row h orderly) []).bind close

end Lists

end Parser

/-- The rules of a level give expressions with their pieces. -/
structure Level.Seats (inner : Level) : Prop where
  assignment : Parser.Seats inner.assignment
  disjunction : Parser.Seats inner.disjunction
  unary : Parser.Seats inner.unary

namespace Parser

variable {inner : Level} {s : State}

theorem expression_seats (h : inner.Seats) : Seats (expression inner) := h.assignment.nested

theorem call_seats (h : inner.Seats) (orderly : s.Orderly) (e : Expr) {opening : Token}
    (kind : opening.kind = .lParen) : From s (Then (Sits e) opening) (do
      link
      let args ← arguments inner
      return (Expr.call e args (e.span.cover (← get).last.span), true)) fun next =>
        Sits next.1 := by
  have plain : opening.kind.isPlain = true := by rw [kind]; rfl
  have args : Views (arguments inner) fun args => args.map Expr.spans :=
    inParens_views (expression_seats h).views (by decide)
  have even := Then.even (fun ps (sits : Sits e ps) => sits.even) plain
  apply (From.link even).bind
  intro _
  apply (args.behind orderly even).bind
  rintro args _ t laid ⟨_, rs, ⟨qs, sits, rfl⟩, row, rfl⟩
  have more : Braced 0 ([token opening] ++ rs) := (braced_nil.push plain).append row.even
  rw [List.append_assoc] at laid
  apply sits.extend orderly laid (by simp) more rfl
  rw [Expr.spans, Expr.allSpans_eq, List.singleton_append, trees_token, row.trees]
  rfl

theorem member_seats (orderly : s.Orderly) (e : Expr) {dot : Token} (kind : dot.kind = .dot) :
    From s (Then (Sits e) dot) (do
      link
      let t := (← get).peek
      if t.kind = .identifier ∨ t.kind = .builtinVar then
        let _ ← advance
        return (Expr.member e t.text (e.span.cover t.span), true)
      else refuse (.expected .propertyName)) fun next => Sits next.1 := by
  have plain : dot.kind.isPlain = true := by rw [kind]; rfl
  have even := Then.even (fun ps (sits : Sits e ps) => sits.even) plain
  apply (From.link even).bind
  intro _ ps t laid holds
  rw [run_bind_ok (run_get t)]
  dsimp only
  split
  · next named =>
      have name : t.peek.kind.isPlain = true := by
        rcases named with named | named <;> rw [named] <;> rfl
      apply From.advance orderly laid holds name
      rintro _ u laid ⟨_, ⟨qs, sits, rfl⟩, rfl⟩
      have last : u.last = t.peek := by
        rw [laid.last]
        simp
      have more : Braced 0 ([token dot] ++ [token t.peek]) := (braced_nil.push plain).push name
      rw [List.append_assoc] at laid
      apply sits.extend orderly laid (by simp) more
      · rw [last]
        rfl
      · rw [Expr.spans]
        rfl
  · exact From.refuse _ (by decide) even ps t laid holds

theorem postfixLink_seats (h : inner.Seats) (orderly : s.Orderly) (e : Expr) :
    From s (Sits e) (postfixLink inner e) fun next => Sits next.1 := by
  apply (From.eat orderly rfl).bind
  intro call
  cases call with
  | true =>
      rintro ps t laid ⟨opening, holds, kind⟩
      exact call_seats h orderly e kind ps t laid holds
  | false =>
      apply (From.eat orderly rfl).bind
      intro member
      cases member with
      | true =>
          rintro ps t laid ⟨dot, holds, kind⟩
          exact member_seats orderly e kind ps t laid holds
      | false => exact .pure fun ps sits => sits

theorem postfixed_seats (h : inner.Seats) : Seats (postfixed inner) := by
  apply From.gives
  intro s orderly
  apply From.chain
  exact ((primary_seats (expression_seats h)).first orderly).bind
    (From.repeating (postfixLink_seats h orderly))

theorem signed_ends (h : inner.Seats) (orderly : s.Orderly) (plain : s.peek.kind.isPlain = true)
    (operator : UnaryOp) : Ends s Sits ((advance >>= fun _ => nested inner.unary >>= fun argument =>
      pure (Expr.unary operator argument (s.peek.span.cover argument.span))).run s) := by
  apply From.advance (P := (· = [])) orderly .refl rfl plain
  apply (h.unary.nested.behind orderly (Then.even braced_of_nil plain)).bind
  rintro argument _ t laid ⟨_, rs, ⟨_, rfl, rfl⟩, sits, rfl⟩
  exact sits.sign orderly plain laid rfl (by rw [Expr.spans]; rfl)

theorem unary_seats (h : inner.Seats) : Seats (unary inner) := by
  intro s orderly
  rw [unary, run_bind_ok (run_get s)]
  dsimp only
  split
  case h_3 => exact postfixed_seats h s orderly
  all_goals
    next kind => exact signed_ends h orderly (by rw [kind]; rfl) _

theorem binaryLink_seats {operator? : Kind → Option BinaryOp} {operand : ParseM Expr}
    (plain : ∀ kind, operator? kind ≠ none → kind.isPlain = true)
    (h : Seats operand) (orderly : s.Orderly) (left : Expr) :
    From s (Sits left) (binaryLink operator? operand left) fun next => Sits next.1 := by
  intro ps t laid sits
  rw [binaryLink, run_bind_ok (run_get t)]
  split
  · exact ⟨ps, laid, sits⟩
  · next operator found =>
      have here : t.peek.kind.isPlain = true := by
        apply plain
        rw [found]
        exact Option.some_ne_none operator
      have even := Then.even (fun ps (sits : Sits left ps) => sits.even) here
      apply From.advance orderly laid sits here
      apply (From.link even).bind
      intro _
      apply (h.behind orderly even).bind
      rintro right _ u laid ⟨_, rs, ⟨qs, sits, rfl⟩, sits', rfl⟩
      rw [List.append_assoc] at laid
      exact sits.join orderly sits' here laid rfl (by rw [binary, Expr.spans]; rfl)

theorem leftChain_seats {operator? : Kind → Option BinaryOp} {operand : ParseM Expr}
    (plain : ∀ kind, operator? kind ≠ none → kind.isPlain = true) (h : Seats operand) :
    Seats (leftChain operator? operand) := by
  apply From.gives
  intro s orderly
  apply From.chain
  exact (h.first orderly).bind (From.repeating (binaryLink_seats plain h orderly))

theorem disjunction_seats (h : inner.Seats) : Seats (disjunction inner) := by
  have plain : ∀ kind ∈ operatorKinds, kind.isPlain = true := by decide
  refine disjunction_of_operands (unary_seats h) fun _ _ signs operand => ?_
  exact leftChain_seats (fun kind found => plain kind (signs kind found)) operand

theorem assignment_seats (h : inner.Seats) : Seats (assignment inner) := by
  apply From.gives
  intro s orderly
  apply ((disjunction_seats h).first orderly).bind
  intro target ps t laid sits
  rw [run_bind_ok (run_check .assign t)]
  split
  · next here =>
      have kind : t.peek.kind = .assign := of_decide_eq_true here
      have plain : t.peek.kind.isPlain = true := by rw [kind]; rfl
      split
      · apply From.advance orderly laid sits plain
        apply (h.assignment.nested.behind orderly
          (Then.even (fun ps (sits : Sits target ps) => sits.even) plain)).bind
        rintro value _ u laid ⟨_, rs, ⟨qs, sits, rfl⟩, sits', rfl⟩
        rw [List.append_assoc] at laid
        exact sits.join orderly sits' plain laid rfl (by rw [Expr.spans]; rfl)
      · exact From.refuse _ (by decide) (fun ps sits => sits.even) ps t laid sits
  · exact ⟨ps, laid, sits⟩

theorem layer_seats (h : inner.Seats) : (layer inner).Seats :=
  ⟨assignment_seats h, disjunction_seats h, unary_seats h⟩

theorem refuse_seats : Seats (refuse .nestedTooDeeply) :=
  fun s _ => From.refuse _ (by decide) braced_of_nil [] s .refl rfl

theorem tower_seats (levels : Nat) : (tower levels).Seats := by
  induction levels with
  | zero => exact ⟨refuse_seats, refuse_seats, refuse_seats⟩
  | succ levels ih => exact layer_seats ih

end Parser

end ScriptLens
