import ScriptLens.Proofs.Print.Bodies

/-!
Where a function declaration is seen. The look-ahead passes over balanced words, which expressions
and parameters are; so it stops right behind the parenthesis that closes the one behind the first
name, and finds a brace there behind parameters only.
-/

namespace ScriptLens

open ParseM ScriptLens.Parser

/-- Kinds that the look-ahead neither counts nor stops at, line breaks apart. -/
def isPlain (kind : Kind) : Bool := kind ∉ [.lParen, .rParen, .lBrace, .rBrace, .eof, .newline]

/-- Words on a line in which parentheses match. -/
inductive Balanced : List Word → Prop
  | nil : Balanced []
  | plain {kind text words} : isPlain kind = true → Balanced words →
      Balanced (.token kind text :: words)
  | group {opening closing words more} : Balanced words → Balanced more →
      Balanced (.token .lParen opening :: (words ++ .token .rParen closing :: more))

namespace Balanced

variable {words more : List Word}

theorem append (first : Balanced words) (second : Balanced more) : Balanced (words ++ more) := by
  induction first with
  | nil => exact second
  | plain kind _ ih => exact .plain kind ih
  | group inside _ _ ih =>
      rw [List.cons_append, List.append_assoc]
      exact .group inside ih

theorem token {kind : Kind} (text : String) (h : isPlain kind = true) :
    Balanced [.token kind text] :=
  .plain h .nil

theorem inParens (h : Balanced words) : Balanced (.lParen :: (words ++ [.rParen])) := .group h .nil

theorem grouped (h : Balanced words) (needed : Bool) : Balanced (Word.grouped needed words) := by
  cases needed with
  | true => exact h.inParens
  | false => exact h

theorem separated {items : List (List Word)} (h : ∀ item ∈ items, Balanced item) :
    Balanced (Word.separated items) := by
  induction items with
  | nil => exact .nil
  | cons item items ih =>
      have first := h item List.mem_cons_self
      have others := ih fun other member => h other (List.mem_cons_of_mem item member)
      cases items with
      | nil => exact first
      | cons next items => exact first.append (.plain rfl others)

/-- The look-ahead passes over balanced words inside parentheses. -/
theorem pastParens (h : Balanced words) {source : List Char} {tokens : List Token}
    (spells : Spells source words tokens) (opened : Nat) (rest : List Token) :
    Token.pastParens (opened + 1) (tokens ++ rest) = Token.pastParens (opened + 1) rest := by
  induction h generalizing tokens opened rest with
  | nil =>
      cases spells
      rfl
  | @plain kind text words plain _ ih =>
      obtain ⟨t, others, rfl, rfl, _, spells⟩ := spells.of_token
      rw [← ih spells opened rest, List.cons_append, Token.pastParens]
      revert plain
      generalize t.kind = kind
      cases kind <;> intro plain <;> first | rfl | cases plain
  | @group opening closing words more _ _ inside behind =>
      obtain ⟨t, others, rfl, hopen, _, spells⟩ := spells.of_token
      obtain ⟨first, second, rfl, here, spells⟩ := spells.of_append
      obtain ⟨u, later, rfl, hclose, _, there⟩ := spells.of_token
      have closed : Token.pastParens (opened + 1 + 1) (u :: (later ++ rest)) =
          Token.pastParens (opened + 1) (later ++ rest) := by
        rw [Token.pastParens, hclose]
        simp
      rw [List.cons_append, Token.pastParens, hopen, List.append_assoc]
      change Token.pastParens (opened + 1 + 1) (first ++ (u :: (later ++ rest))) = _
      rw [inside here (opened + 1), closed, behind there]

/-- What stands behind a finished line of balanced words is no brace. -/
theorem no_brace (h : Balanced words) {source : List Char} {tokens rest : List Token}
    (spells : Spells source words tokens) (settled : Settled rest) :
    headKind ((tokens ++ rest).dropWhile fun t => decide (t.kind = .newline)) ≠ .lBrace := by
  cases h with
  | nil =>
      cases spells
      obtain ⟨line, more, rfl, newline, calm⟩ := settled
      rw [List.nil_append, List.dropWhile_cons_of_pos (by simpa using newline)]
      cases more with
      | nil => simp
      | cons t more =>
          have other : t.kind ≠ .newline := ne_newline_of_isCalm calm
          rw [List.dropWhile_cons_of_neg (by simpa using other)]
          rintro brace
          rw [brace] at calm
          cases calm
  | @plain kind text words plain _ =>
      obtain ⟨t, others, rfl, rfl, _, _⟩ := spells.of_token
      have other : t.kind ≠ .newline := by
        intro newline
        rw [newline] at plain
        cases plain
      rw [List.cons_append, List.dropWhile_cons_of_neg (by simpa using other)]
      intro brace
      rw [headKind_cons] at brace
      rw [brace] at plain
      cases plain
  | group =>
      obtain ⟨t, others, rfl, paren, _, _⟩ := spells.of_token
      rw [List.cons_append, List.dropWhile_cons_of_neg (by simp [paren]), headKind_cons, paren]
      decide

end Balanced

theorem balanced_words (e : Expr) : Balanced e.words := by
  induction e using Expr.tree_induction with
  | assignment target value span iht ihv =>
      rw [Expr.words]
      exact (iht.grouped _).append (.plain rfl ihv)
  | binary operator left right span ihl ihr =>
      rw [Expr.words]
      exact (ihl.grouped _).append (.plain (by cases operator <;> rfl) (ihr.grouped _))
  | unary operator argument span ih =>
      rw [Expr.words]
      exact .plain (by cases operator <;> rfl) (ih.grouped _)
  | call callee arguments span ihc iha =>
      rw [Expr.words, Expr.listed_eq]
      have items : ∀ item ∈ arguments.map Expr.words, Balanced item := by
        intro item member
        obtain ⟨a, inside, rfl⟩ := List.mem_map.mp member
        exact iha a inside
      exact (ihc.grouped _).append (Balanced.separated items).inParens
  | member object property span ih =>
      rw [Expr.words]
      refine (ih.grouped _).append (.plain rfl (.token _ ?_))
      unfold Expr.nameKind
      split <;> rfl
  | literal value raw span =>
      rw [Expr.words]
      refine .token _ ?_
      rcases value with _ | _ | (_ | _) | _ <;> rfl
  | name n builtin span =>
      rw [Expr.words]
      exact .token _ (by cases builtin <;> rfl)

theorem balanced_param (p : Param) : Balanced p.words := by
  unfold Param.words
  refine .append ?_ (.plain rfl (.append ?_ ?_))
  · split
    · exact .token _ rfl
    · exact .nil
  · split
    · exact .token _ rfl
    · exact .nil
  · cases p.default with
    | some e => exact .plain rfl ((balanced_words e).grouped _)
    | none => exact .nil

/-- A declaration is seen by its name, its opening parenthesis and the brace behind the closing
one. -/
theorem headsDeclaration_eq (passed : Kind → Bool) (name opening : Token) (rest : List Token) :
    Token.headsDeclaration passed (name :: opening :: rest) =
      (decide (name.kind = .identifier) && decide (opening.kind = .lParen) &&
        (Token.pastParens 1 rest).any fun after =>
          decide (headKind (after.dropWhile fun t => passed t.kind) = .lBrace)) := by
  rw [Token.headsDeclaration]
  congr 1
  cases Token.pastParens 1 rest with
  | none => rfl
  | some after =>
      simp only [Option.any_some]
      split
      · next nothing => simp [nothing]
      · next t more found => simp [found]

theorem headsDeclaration_balanced {words : List Word} (h : Balanced words) {source : List Char}
    {tokens rest : List Token} (spells : Spells source words tokens) (settled : Settled rest) :
    Token.headsDeclaration (· = .newline) (tokens ++ rest) = false := by
  have first : ∀ (t : Token) (others : List Token), t.kind ≠ .identifier →
      Token.headsDeclaration (· = .newline) (t :: others) = false := by
    intro t others other
    cases others with
    | nil => rfl
    | cons u others => simp [headsDeclaration_eq, other]
  have second : ∀ (t u : Token) (others : List Token), u.kind ≠ .lParen →
      Token.headsDeclaration (· = .newline) (t :: u :: others) = false := by
    intro t u others other
    simp [headsDeclaration_eq, other]
  cases h with
  | nil =>
      cases spells
      obtain ⟨line, more, rfl, newline, _⟩ := settled
      exact first line more (by simp [newline])
  | group =>
      obtain ⟨t, others, rfl, paren, _, _⟩ := spells.of_token
      exact first t _ (by simp [paren])
  | @plain kind text words plain behind =>
      obtain ⟨t, others, rfl, _, _, spells⟩ := spells.of_token
      cases behind with
      | nil =>
          cases spells
          obtain ⟨line, more, rfl, newline, _⟩ := settled
          exact second t line more (by simp [newline])
      | @plain kind text words plain _ =>
          obtain ⟨u, others, rfl, rfl, _, _⟩ := spells.of_token
          refine second t u _ ?_
          intro paren
          rw [paren] at plain
          cases plain
      | @group opening closing inside more hinside hmore =>
          obtain ⟨u, others, rfl, _, _, spells⟩ := spells.of_token
          obtain ⟨front, back, rfl, here, spells⟩ := spells.of_append
          obtain ⟨v, later, rfl, close, _, there⟩ := spells.of_token
          have closed : Token.pastParens 1 (v :: (later ++ rest)) = some (later ++ rest) := by
            rw [Token.pastParens, close]
            rfl
          have found :
              Token.pastParens 1 (front ++ (v :: (later ++ rest))) = some (later ++ rest) := by
            rw [hinside.pastParens here 0, closed]
          have shape : t :: u :: (front ++ v :: later) ++ rest =
              t :: u :: (front ++ (v :: (later ++ rest))) := by
            simp
          rw [shape, headsDeclaration_eq, found]
          simp [hmore.no_brace there settled]

/-- No expression on its line looks like a function declaration. -/
theorem atFunction_expression {e : Expr} {s : State} {tokens rest : List Token}
    (spells : Spells s.source e.words tokens) (ahead : s.ahead = tokens ++ rest)
    (settled : Settled rest) : s.atFunction = false := by
  have declared := headsDeclaration_balanced (balanced_words e) spells settled
  obtain ⟨kind, text, more, words, starts⟩ := words_heads e
  rw [words] at spells
  obtain ⟨t, others, rfl, rfl, _, _⟩ := spells.of_token
  have plain : t.kind ≠ .kwStatic := by
    intro isStatic
    rw [isStatic] at starts
    cases starts
  rw [State.atFunction, ahead]
  simp only [List.cons_append, plain, if_false]
  exact declared

theorem headsDeclaration_params {inside : List Word} (h : Balanced inside) {name : String}
    {more : List Word} {source : List Char} {tokens : List Token} (spells : Spells source
      (.token .identifier name :: .lParen :: (inside ++ .rParen :: .lBrace :: more)) tokens)
    (rest : List Token) : Token.headsDeclaration (· = .newline) (tokens ++ rest) = true := by
  obtain ⟨t, others, rfl, hname, _, spells⟩ := spells.of_token
  obtain ⟨u, others, rfl, hopen, _, spells⟩ := spells.of_token
  obtain ⟨front, back, rfl, here, spells⟩ := spells.of_append
  obtain ⟨v, later, rfl, close, _, spells⟩ := spells.of_token
  obtain ⟨w, behind, rfl, brace, _, _⟩ := spells.of_token
  have closed : Token.pastParens 1 (v :: w :: (behind ++ rest)) = some (w :: (behind ++ rest)) := by
    rw [Token.pastParens, close]
    rfl
  have found : Token.pastParens 1 (front ++ (v :: w :: (behind ++ rest))) =
      some (w :: (behind ++ rest)) := by
    rw [h.pastParens here 0, closed]
  have shape : t :: u :: (front ++ v :: w :: behind) ++ rest =
      t :: u :: (front ++ (v :: w :: (behind ++ rest))) := by
    simp
  rw [shape, headsDeclaration_eq, found]
  simp [hname, hopen, brace]

/-- A function declaration is seen as one. -/
theorem atFunction_function {s : State} {isStatic : Bool} {name : String} {params : List Param}
    {more : List Word} {tokens rest : List Token}
    (spells : Spells s.source (Stmt.staticWords isStatic ++ .token .identifier name :: .lParen ::
      (Word.separated (params.map Param.words) ++ .rParen :: .lBrace :: more)) tokens)
    (ahead : s.ahead = tokens ++ rest) : s.atFunction = true := by
  have items : Balanced (Word.separated (params.map Param.words)) := by
    refine .separated ?_
    intro item member
    obtain ⟨p, _, rfl⟩ := List.mem_map.mp member
    exact balanced_param p
  rw [State.atFunction, ahead]
  cases isStatic with
  | true =>
      obtain ⟨t, others, rfl, isStatic, _, spells⟩ := Spells.of_token spells
      simp only [List.cons_append, isStatic, if_true]
      exact headsDeclaration_params items spells rest
  | false =>
      have declared := headsDeclaration_params items spells rest
      obtain ⟨t, others, rfl, hname, _, _⟩ := Spells.of_token spells
      have plain : t.kind ≠ .kwStatic := by simp [hname]
      simp only [List.cons_append, plain, if_false]
      exact declared

end ScriptLens
