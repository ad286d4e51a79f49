import ScriptLens.Proofs.Highlight.Tiling
import ScriptLens.Proofs.Parser.Written
import ScriptLens.Proofs.Print.Lookahead
import ScriptLens.Proofs.Recovery.Lines
import ScriptLens.Proofs.Scan.Comments

/-!
Declarations as the highlighter sees them, among all tokens, and as the parser does, without
comments. Both look for the same parenthesis and pass over what may stand behind it, so a name heads
a declaration for one where it does for the other. A name that the parser took for one keeps its
neighbours, and is shown as what it names.
-/

namespace ScriptLens

open ParseM ScriptLens.Parser

namespace Token

/-- The look-ahead never passes the end mark. -/
theorem pastParens_closed {last : Token} (closing : last.kind = .eof) (depth : Nat)
    (ts : List Token) :
    pastParens depth (ts ++ [last]) = (pastParens depth ts).map (· ++ [last]) := by
  fun_induction pastParens depth ts with
  | case1 depth => simp [pastParens, closing]
  | case2 depth t rest kind ih => simpa [pastParens, kind] using ih
  | case3 depth t rest kind outer => simp [pastParens, kind, outer]
  | case4 depth t rest kind inner ih => simpa [pastParens, kind, inner] using ih
  | case5 depth t rest kind => simp [pastParens, kind]
  | case6 depth t rest kind => simp [pastParens, kind]
  | case7 depth t rest kind => simp [pastParens, kind]
  | case8 depth t rest _ _ _ _ _ ih => simpa [pastParens] using ih

/-- The look-ahead finds the same parenthesis without comments. -/
theorem pastParens_kept (depth : Nat) (ts : List Token) :
    pastParens depth (ts.filter (·.kind != .comment)) =
      (pastParens depth ts).map (List.filter (·.kind != .comment)) := by
  fun_induction pastParens depth ts with
  | case1 depth => rfl
  | case2 depth t rest kind ih => simpa [pastParens, kind] using ih
  | case3 depth t rest kind outer => simp [pastParens, kind, outer]
  | case4 depth t rest kind inner ih => simpa [pastParens, kind, inner] using ih
  | case5 depth t rest kind => simp [pastParens, kind]
  | case6 depth t rest kind => simp [pastParens, kind]
  | case7 depth t rest kind => simp [pastParens, kind]
  | case8 depth t rest lParen rParen lBrace rBrace eof ih =>
      by_cases comment : t.kind = .comment
      · rw [List.filter_cons_of_neg (by simp [comment])]
        exact ih
      · rw [List.filter_cons_of_pos (by simp [comment])]
        simpa [pastParens] using ih

end Token

/-- The first token that is neither a line break nor a comment, or the end mark. -/
theorem headKind_kept {last : Token} (closing : last.kind = .eof) (ts : List Token) :
    headKind ((ts ++ [last]).dropWhile
      fun t => decide (t.kind = .newline) || decide (t.kind = .comment)) = headKind
      ((ts.filter (·.kind != .comment)).dropWhile fun t => decide (t.kind = .newline)) := by
  induction ts with
  | nil => simp [closing]
  | cons t ts ih =>
      by_cases comment : t.kind = .comment
      · rw [List.filter_cons_of_neg (by simp [comment]), List.cons_append,
          List.dropWhile_cons_of_pos (by simp [comment])]
        exact ih
      · rw [List.filter_cons_of_pos (by simp [comment]), List.cons_append]
        by_cases newline : t.kind = .newline
        · rw [List.dropWhile_cons_of_pos (by simp [newline]),
            List.dropWhile_cons_of_pos (by simp [newline])]
          exact ih
        · rw [List.dropWhile_cons_of_neg (by simp [newline, comment]),
            List.dropWhile_cons_of_neg (by simp [newline])]
          rfl

/-- A name heads a declaration among all tokens where it does without comments and the end mark. -/
theorem headsDeclaration_kept {name last : Token} {after : List Token} (ends : CommentsEnd after)
    (closing : last.kind = .eof) :
    Token.headsDeclaration (fun k => k = .newline || k = .comment) (name :: (after ++ [last])) =
      Token.headsDeclaration (· = .newline) (name :: after.filter (·.kind != .comment)) := by
  -- nothing but a parenthesis right behind the name counts, with comments or without
  have apart {passed : Kind → Bool} {t : Token} (rest : List Token) (other : t.kind ≠ .lParen) :
      Token.headsDeclaration passed (name :: t :: rest) = false := by
    simp [headsDeclaration_eq, other]
  cases after with
  | nil => exact apart [] (by simp [closing])
  | cons paren rest =>
      by_cases comment : paren.kind = .comment
      · rw [List.filter_cons_of_neg (by simp [comment]), List.cons_append,
          apart _ (by simp [comment])]
        obtain ⟨newline, _⟩ := List.isChain_cons.mp ends
        cases rest with
        | nil => rfl
        | cons t rest =>
            have kind : t.kind = .newline := newline t rfl comment
            rw [List.filter_cons_of_pos (by simp [kind]), apart _ (by simp [kind])]
      · rw [List.filter_cons_of_pos (by simp [comment]), List.cons_append, headsDeclaration_eq,
          headsDeclaration_eq, Token.pastParens_closed closing, Token.pastParens_kept]
        congr 1
        cases Token.pastParens 1 rest with
        | none => rfl
        | some behind =>
            exact congrArg (fun kind => decide (kind = Kind.lBrace)) (headKind_kept closing behind)

namespace Parser.State

theorem advance_ahead (s : State) : s.advance.ahead = s.ahead.tail := by
  unfold advance
  split <;> simp [*]

theorem ahead_iterate (n : Nat) (s : State) : (State.advance^[n] s).ahead = s.ahead.drop n := by
  induction n generalizing s with
  | zero => rfl
  | succ n ih => rw [Function.iterate_succ_apply, ih, advance_ahead, List.drop_tail]

theorem atFunction_of_name {s : State} {name : Token} {rest : List Token}
    (ahead : s.ahead = name :: rest) (kind : name.kind = .identifier) :
    s.atFunction = Token.headsDeclaration (· = .newline) (name :: rest) := by
  rw [atFunction, ahead]
  simp [kind]

end Parser.State

namespace Highlight

/-- The stretch that starts at a place. -/
def at? (p : Position) (highlights : List Highlight) : Option Highlight :=
  highlights.find? fun h => h.line + 1 = p.line && h.character + 1 = p.column

variable {hs : List Highlight} {p : Position}

theorem at?_of_mem (order : InSequence hs) {h : Highlight} (member : h ∈ hs)
    (line : h.line + 1 = p.line) (column : h.character + 1 = p.column) : at? p hs = some h := by
  cases found : at? p hs with
  | none =>
      have other := List.find?_eq_none.mp found h member
      simp [line, column] at other
  | some k =>
      have same := List.find?_some found
      simp only [Bool.and_eq_true, decide_eq_true_eq] at same
      by_contra different
      have apart := either_of_pairwise order.increasing (List.mem_of_find?_eq_some found) member
        fun eq => different (congrArg some eq)
      omega

theorem ofTokens_append (source : List Char) (before ts us : List Token) : ∃ shown,
    ofTokens source before (ts ++ us) = shown ++ ofTokens source (ts.reverse ++ before) us := by
  induction ts generalizing before with
  | nil => exact ⟨[], rfl⟩
  | cons t ts ih =>
      obtain ⟨shown, same⟩ := ih (t :: before)
      refine ⟨ofToken source before t (ts ++ us) ++ shown, ?_⟩
      rw [List.cons_append, ofTokens, same, List.reverse_cons]
      simp

end Highlight

namespace Scanned

variable {source : String} {front before after : List Token} {last name : Token}

/-- The stretches of a token are among those of its script. -/
theorem mem_ofSource (h : Scanned source front last) (place : front = before ++ name :: after) :
    ∀ k ∈ Highlight.ofToken source.toList before.reverse name (after ++ [last]),
    k ∈ Highlight.ofSource source := by
  obtain ⟨shown, split⟩ :=
    Highlight.ofTokens_append source.toList [] before (name :: (after ++ [last]))
  intro k member
  rw [Highlight.ofSource, (fault_of_tokenize h.tokens).2, place, List.append_assoc,
    List.cons_append, split, List.append_nil, Highlight.ofTokens]
  exact List.mem_append_right _ (List.mem_append_left _ member)

/-- A name stands on one line and is as long as its text. -/
theorem name_oneLine (h : Scanned source front last) (member : name ∈ front)
    (kind : name.kind = .identifier) :
    ¬name.start.line < name.stop.line ∧ name.charLength source.toList = name.text.length := by
  obtain ⟨text, body, behind, whole, covers⟩ := h.tiled.place member
  have reads := (whole ▸ h.origins name member).reads covers
  have free : '\n' ∉ body := reads.line (by rw [kind]; decide) (by rw [kind]; decide)
  constructor
  · rw [covers.stop, covers.start, Position.after_line _ body, List.count_eq_zero.mpr free]
    omega
  · have cut :
        Text.slice? (text ++ (body ++ behind)) name.start.offset name.stop.offset = some body :=
      covers.slice? (by simp)
    rw [Token.charLength, whole, cut, covers.text (by rw [kind]; decide)]
    exact String.length_ofList.symm

/-- A name is shown by one stretch at its place, over all of it. -/
theorem at?_name (h : Scanned source front last) (place : front = before ++ name :: after)
    (kind : name.kind = .identifier) :
    ∃ h, Highlight.at? name.start (Highlight.ofSource source) = some h ∧
      (h.type, h.modifiers) = Highlight.classifyIdentifier before.reverse name (after ++ [last]) ∧
      h.length = name.text.length := by
  have member : name ∈ front := by simp [place]
  obtain ⟨line, length⟩ := h.name_oneLine member kind
  have one : Highlight.ofToken source.toList before.reverse name (after ++ [last]) =
      [⟨name.start.line - 1, name.start.column - 1, name.charLength source.toList,
        (Highlight.classifyIdentifier before.reverse name (after ++ [last])).1,
        (Highlight.classifyIdentifier before.reverse name (after ++ [last])).2⟩] := by
    rw [Highlight.ofToken, Highlight.classify?, kind]
    exact if_neg line
  have positive : 1 ≤ name.start.line ∧ 1 ≤ name.start.column := by
    obtain ⟨text, _, _, _, covers⟩ := h.tiled.place member
    rw [covers.start]
    exact Position.after_pos text
  have order := (Highlight.shows_lexed h.tokens).inSequence
  have here := h.mem_ofSource place _ (one ▸ List.mem_singleton_self _)
  exact ⟨_, Highlight.at?_of_mem order here (Nat.sub_add_cancel positive.1)
    (Nat.sub_add_cancel positive.2), rfl, length⟩

/-- A name that is not behind a dot heads a declaration for the highlighter where it does without
comments. -/
theorem isDeclarationName_eq (h : Scanned source front last)
    (place : front = before ++ name :: after) (undotted : ∀ t ∈ before.getLast?, t.kind ≠ .dot) :
    Highlight.isDeclarationName before.getLast? (name :: (after ++ [last])) =
      Token.headsDeclaration (· = .newline) (name :: after.filter (·.kind != .comment)) := by
  have ends := h.commentsEnd
  rw [place, ← List.singleton_append, ← List.append_assoc] at ends
  have free : before.getLast?.any (·.kind = .dot) = false := by
    cases final : before.getLast? with
    | none => rfl
    | some t => simpa using undotted t final
  rw [Highlight.isDeclarationName, free, headsDeclaration_kept ends.right_of_append h.closing]
  rfl

end Scanned

namespace Highlight

variable {before after : List Token} {name : Token}

theorem classifyIdentifier_function (undotted : ∀ t ∈ before.head?, t.kind ≠ .dot)
    (called : ∀ t ∈ after.head?, t.kind = .lParen) (some : after ≠ [])
    (declares : isDeclarationName before.head? (name :: after) = true) :
    (classifyIdentifier before name after).1 = .function ∧
      .declaration ∈ (classifyIdentifier before name after).2 := by
  have free : before.head?.any (·.kind = .dot) = false := by
    cases first : before.head? with
    | none => rfl
    | some t => simpa using undotted t first
  obtain ⟨paren, rest, rfl⟩ := List.exists_cons_of_ne_nil some
  have opening :
    ((paren :: rest).head?.any fun t => t.kind = .lParen) = true := by simpa using called paren rfl
  rw [classifyIdentifier]
  simp only [free, opening, declares]
  exact ⟨rfl, by simp⟩

theorem classifyIdentifier_class {word : Token} (behind : before.head? = some word)
    (kind : word.kind = .kwClass) (apart : ∀ t ∈ after.head?, t.kind ≠ .lParen) :
    classifyIdentifier before name after = (.classType, [.declaration]) := by
  have other : (after.head?.any fun t => t.kind = .lParen) = false := by
    cases first : after.head? with
    | none => rfl
    | some t => simpa using apart t first
  rw [classifyIdentifier]
  simp [behind, kind, other]

/-- A name at a place is shown as what it declares, by one stretch over all of it. -/
def Declares (source name : String) (p : Position) (type : HighlightType) : Prop :=
  ∃ h, at? p (ofSource source) = some h ∧ h.type = type ∧ .declaration ∈ h.modifiers ∧
    h.length = name.length

end Highlight

/-- A function and a class are shown as declared. -/
def Stmt.Shown (source : String) : Stmt → Prop
  | .function name nameSpan .. => Highlight.Declares source name nameSpan.start .function
  | .classDecl name nameSpan .. => Highlight.Declares source name nameSpan.start .classType
  | _ => True

section Shown

/-- A name that has no parenthesis behind it has none there with comments either. -/
theorem uncalled_of_kept {after back : List Token} {next : Token}
    (kept : after.filter (·.kind != .comment) = next :: back) (apart : next.kind ≠ .lParen)
    (last : Token) : ∀ t ∈ (after ++ [last]).head?, t.kind ≠ .lParen := by
  cases after with
  | nil => cases kept
  | cons u after =>
      rintro t first
      cases first
      by_cases comment : u.kind = .comment
      · rw [comment]
        decide
      · rw [List.filter_cons_of_pos (by simp [comment])] at kept
        rw [(List.cons.inj kept).1]
        exact apart

variable {source : String} {front f back : List Token} {last t paren word next : Token}
  {name : String} {nameSpan : Span} {params : List Param}

theorem FunctionHead.shown (h : Scanned source front last)
    (head : FunctionHead (front.filter (·.kind != .comment)) name nameSpan params f t paren back) :
    Highlight.Declares source name nameSpan.start .function := by
  obtain ⟨before, after, place, _, kept, previous⟩ :=
    h.commentsEnd.place head.place (by rw [head.kind]; decide)
  have ends := h.commentsEnd
  rw [place] at ends
  obtain ⟨after', rfl, _⟩ := ends.next kept (by rw [head.opening]; decide)
  have undotted : ∀ u ∈ before.getLast?, u.kind ≠ .dot := previous ▸ head.undotted
  obtain ⟨shown, found, same, length⟩ := h.at?_name place head.kind
  have declares := h.isDeclarationName_eq place undotted
  rw [kept, head.declares, ← List.head?_reverse] at declares
  rw [← List.head?_reverse] at undotted
  obtain ⟨type, declared⟩ :=
    Highlight.classifyIdentifier_function undotted (by simpa using head.opening) (by simp) declares
  rw [← same] at type declared
  exact ⟨shown, by rw [← head.span]; exact found, type, declared, by rw [length, head.text]⟩

theorem ClassHead.shown (h : Scanned source front last)
    (head : ClassHead (front.filter (·.kind != .comment)) name nameSpan f word t next back) :
    Highlight.Declares source name nameSpan.start .classType := by
  have split := head.place
  rw [← List.singleton_append, ← List.append_assoc] at split
  obtain ⟨before, after, place, _, kept, previous⟩ :=
    h.commentsEnd.place split (by rw [head.kind]; decide)
  obtain ⟨shown, found, same, length⟩ := h.at?_name place head.kind
  have apart := uncalled_of_kept kept head.apart last
  rw [List.getLast?_concat] at previous
  rw [Highlight.classifyIdentifier_class (by rw [List.head?_reverse]; exact previous) head.word
    apart] at same
  obtain ⟨type, modifiers⟩ := Prod.mk.inj same
  exact ⟨shown, by rw [← head.span]; exact found,
    type, by rw [modifiers]; exact List.mem_singleton_self _, by rw [length, head.text]⟩

end Shown

theorem Stmt.Written.shown {source : String} {front : List Token} {last : Token}
    (h : Scanned source front last) {stmt : Stmt}
    (written : stmt.Written (front.filter (·.kind != .comment))) : stmt.Shown source := by
  cases stmt with
  | function name nameSpan params body isStatic span =>
      obtain ⟨f, t, paren, back, head⟩ := written
      exact head.shown h
  | classDecl name nameSpan superClass body span =>
      obtain ⟨f, word, t, next, back, head⟩ := written
      exact head.shown h
  | _ => trivial

/-- The highlighter and the parser agree on what is a declaration: at a name that is not behind a
dot they see one both or neither, and every function and class of the tree is shown as declared at
its name. -/
theorem declarations_agree {source : String} {tokens : List Token}
    (lexes : tokenize source = .ok tokens) :
    (∀ before name after, tokens = before ++ name :: after → name.kind = .identifier →
      (∀ t ∈ before.getLast?, t.kind ≠ .dot) →
        let s :=
          State.advance^[(before.filter (·.kind != .comment)).length] (.ofTokens source tokens)
        s.peek = name ∧ Highlight.isDeclarationName before.getLast? (name :: after) =
          s.atFunction) ∧
      ∃ out, parse source = .ok out ∧ ∀ body ∈ Stmt.lists out.program.body, ∀ stmt ∈ body,
        stmt.Shown source := by
  obtain ⟨front, last, rfl, scanned⟩ := tokenize_scanned lexes
  obtain ⟨_, ahead, _⟩ := State.ofTokens_split source scanned.closing scanned.others
  constructor
  · intro before name after place kind undotted
    -- the end mark is no name, so it ends what comes behind the name
    obtain ⟨after, rfl, rfl⟩ :
        ∃ inner, after = inner ++ [last] ∧ front = before ++ name :: inner := by
      rcases List.eq_nil_or_concat' after with rfl | ⟨inner, final, rfl⟩
      · obtain ⟨_, same⟩ := List.append_inj' place rfl
        cases List.cons.inj same |>.1
        exact absurd kind (by rw [scanned.closing]; decide)
      · rw [← List.cons_append, ← List.append_assoc] at place
        obtain ⟨same, final'⟩ := List.append_inj' place rfl
        cases final'
        exact ⟨inner, rfl, same⟩
    have here : (State.advance^[(before.filter (·.kind != .comment)).length]
        (.ofTokens source (before ++ name :: after ++ [last]))).ahead =
        name :: after.filter (·.kind != .comment) := by
      rw [State.ahead_iterate, ahead, List.filter_append, List.filter_cons_of_pos (by simp [kind]),
        List.drop_left]
    dsimp only
    constructor
    · rw [State.peek, here]
      rfl
    · rw [scanned.isDeclarationName_eq rfl undotted, State.atFunction_of_name here kind]
  · refine ⟨_, by rw [parse, lexes]; rfl, ?_⟩
    intro body listed stmt member
    have written := parseTokens_writes source (front ++ [last]) body listed stmt member
    rw [ahead] at written
    exact written.shown scanned

/-- A static function with a comment among its parameters and another one before its brace. -/
theorem declarations_agree_static : (State.advance (.ofTokens "static g(b, ; c\nd) ; e\n\x7b\n\x7d"
      (scan "static g(b, ; c\nd) ; e\n\x7b\n\x7d").tokens)).atFunction = true ∧
      ∃ out, parse "static g(b, ; c\nd) ; e\n\x7b\n\x7d" = .ok out ∧ out.program.body.length = 1 ∧
        ∀ stmt ∈ out.program.body, stmt.Shown "static g(b, ; c\nd) ; e\n\x7b\n\x7d" := by
  have lexes : tokenize "static g(b, ; c\nd) ; e\n\x7b\n\x7d" =
    .ok (scan "static g(b, ; c\nd) ; e\n\x7b\n\x7d").tokens := by decide +kernel
  obtain ⟨sees, out, parses, shown⟩ := declarations_agree lexes
  obtain ⟨out', parses', one⟩ :=
    ok_of_toOption (show (parse "static g(b, ; c\nd) ; e\n\x7b\n\x7d").toOption.map
    (fun out => out.program.body.length) = some 1 by decide +kernel)
  cases Except.ok.inj (parses.symm.trans parses')
  have agree := (sees ((scan "static g(b, ; c\nd) ; e\n\x7b\n\x7d").tokens.take 1) ⟨.identifier,
    "g", ⟨1, 8, 7⟩, ⟨1, 9, 8⟩⟩ ((scan "static g(b, ; c\nd) ; e\n\x7b\n\x7d").tokens.drop 2)
    (by decide +kernel) rfl (by decide +kernel)).2
  have first : (((scan "static g(b, ; c\nd) ; e\n\x7b\n\x7d").tokens.take 1).filter
      (·.kind != .comment)).length = 1 := by
    decide +kernel
  have seen : Highlight.isDeclarationName ((scan "static g(b, ; c\nd) ; e\n\x7b\n\x7d").tokens.take
      1).getLast? (⟨.identifier, "g", ⟨1, 8, 7⟩, ⟨1, 9, 8⟩⟩ ::
      (scan "static g(b, ; c\nd) ; e\n\x7b\n\x7d").tokens.drop 2) = true := by
    decide +kernel
  rw [first, seen] at agree
  exact ⟨agree.symm, out, parses, one, shown _ List.mem_cons_self⟩

end ScriptLens
