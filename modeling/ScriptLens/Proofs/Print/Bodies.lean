import ScriptLens.Proofs.Print.Expressions
import ScriptLens.Proofs.Print.Forms

/-!
Statements in a row, and bodies in braces, are read back if each of their statements is.
-/

namespace ScriptLens

open ParseM ScriptLens.Parser

namespace Word

@[simp] theorem flat_nil : flat [] = [] := rfl

@[simp] theorem flat_cons (line : List Word) (lines : List (List Word)) :
    flat (line :: lines) = line ++ newline :: flat lines := by
  simp [flat]

@[simp] theorem flat_append (a b : List (List Word)) : flat (a ++ b) = flat a ++ flat b := by
  simp [flat]

theorem flat_ends {lines : List (List Word)} (h : lines ≠ []) :
    flat lines = (flat lines).dropLast ++ [newline] := by
  obtain ⟨front, last, rfl⟩ := List.eq_nil_or_concat lines |>.resolve_left h
  simp [← List.append_assoc]

end Word

namespace Stmt

/-- The words of a statement, without the line break behind its last line. -/
def words (s : Stmt) : List Word := (Word.flat (lines s)).dropLast

/-- A body in braces. -/
def blockWords (body : List Stmt) : List Word :=
  .lBrace :: .newline :: (Word.flat (allLines body) ++ [.rBrace])

theorem blockLines_eq (body : List Stmt) : blockLines body = allLines body ++ [[.rBrace]] := by
  induction body with
  | nil => simp [blockLines, allLines]
  | cons s body ih => simp [blockLines, allLines, ih]

/-- A header with its opening brace, and the body behind it. -/
theorem flat_block (header : List Word) (body : List Stmt) (more : List (List Word)) :
    Word.flat ((header ++ [.lBrace]) :: (blockLines body ++ more)) =
      header ++ blockWords body ++ .newline :: Word.flat more := by
  simp [blockLines_eq, blockWords]

theorem lines_ne_nil (s : Stmt) : lines s ≠ [] := by
  cases s with
  | ifs chain =>
      cases chain
      simp [lines, chainLines]
  | _ => simp [lines]

theorem flat_lines (s : Stmt) : Word.flat (lines s) = s.words ++ [Word.newline] :=
  Word.flat_ends (lines_ne_nil s)

theorem words_of_flat {s : Stmt} (ws : List Word) (h : Word.flat (lines s) = ws ++ [.newline]) :
    s.words = ws := by
  rw [words, h, List.dropLast_concat]

theorem words_of_block {s : Stmt} (header : List Word) (body : List Stmt)
    (h : lines s = (header ++ [.lBrace]) :: blockLines body) :
    s.words = header ++ blockWords body := by
  refine words_of_flat _ ?_
  have flat := flat_block header body []
  rw [List.append_nil] at flat
  rw [h, flat]
  rfl

/-- What follows the body of an `if`, from the line break behind its closing brace on. -/
def alternateWords (rest : Alternate) : List Word :=
  (Word.newline :: Word.flat (alternateLines rest)).dropLast

theorem flat_alternate (rest : Alternate) :
    Word.newline :: Word.flat (alternateLines rest) = alternateWords rest ++ [.newline] := by
  have ends := Word.flat_ends (List.cons_ne_nil [] (alternateLines rest))
  rw [Word.flat_cons] at ends
  exact ends

/-- A chain behind the words that open it. -/
def chainWords : IfChain → List Word
  | .mk test consequent rest _ => test.words ++ blockWords consequent ++ alternateWords rest

theorem flat_chain (opening : List Word) (chain : IfChain) :
    Word.flat (chainLines opening chain) = opening ++ chainWords chain ++ [.newline] := by
  obtain ⟨test, consequent, rest, span⟩ := chain
  rw [chainLines, flat_block, flat_alternate, chainWords]
  simp

theorem alternateWords_of_flat {rest : Alternate} (ws : List Word)
    (h : Word.newline :: Word.flat (alternateLines rest) = ws ++ [.newline]) :
    alternateWords rest = ws := by
  rw [alternateWords, h, List.dropLast_concat]

theorem alternateWords_elseIf (next : IfChain) : alternateWords (.elseIf next) =
    .newline :: .token .kwElse "else" :: .token .kwIf "if" :: chainWords next :=
  alternateWords_of_flat _ (by rw [alternateLines, flat_chain]; rfl)

theorem alternateWords_otherwise (body : List Stmt) : alternateWords (.otherwise body) =
    .newline :: .token .kwElse "else" :: blockWords body := by
  refine alternateWords_of_flat _ ?_
  have flat := flat_block [.token .kwElse "else"] body []
  rw [List.append_nil] at flat
  exact congrArg (Word.newline :: ·) flat

theorem words_ifs (chain : IfChain) :
    (ifs chain).words = .token .kwIf "if" :: chainWords chain := by
  refine words_of_flat _ ?_
  rw [lines, flat_chain]
  rfl

theorem flat_allLines_cons (s : Stmt) (body : List Stmt) :
    Word.flat (allLines (s :: body)) = s.words ++ .newline :: Word.flat (allLines body) := by
  rw [allLines, List.flatMap_cons, Word.flat_append, flat_lines, List.append_assoc]
  rfl

theorem words_whileLoop (test : Expr) (body : List Stmt) (span : Span) :
    (whileLoop test body span).words = .token .kwWhile "while" :: test.words ++ blockWords body :=
  words_of_block _ body (by rw [lines])

theorem words_forLoop (names : List String) (iterable : Expr) (body : List Stmt) (span : Span) :
    (forLoop names iterable body span).words = .token .kwFor "for" :: nameWords names ++
      .token .kwIn "in" :: iterable.words ++ blockWords body :=
  words_of_block _ body (by rw [lines])

theorem words_loop (count : Option Expr) (body : List Stmt) (span : Span) :
    (loop count body span).words = .token .kwLoop "loop" :: optional count ++ blockWords body :=
  words_of_block _ body (by rw [lines])

theorem words_classDecl (name : String) (nameSpan : Span) (base : Option String) (body : List Stmt)
    (span : Span) : (classDecl name nameSpan base body span).words =
      .token .kwClass "class" :: .token .identifier name :: baseWords base ++ blockWords body :=
  words_of_block _ body (by rw [lines])

theorem words_function (name : String) (nameSpan : Span) (params : List Param) (body : List Stmt)
    (isStatic : Bool) (span : Span) : (function name nameSpan params body isStatic span).words =
      staticWords isStatic ++ Word.token .identifier name :: Word.lParen ::
        (Word.separated (params.map Param.words) ++ [Word.rParen]) ++ blockWords body :=
  words_of_block _ body (by rw [lines]; simp)

theorem words_hotkey (trigger : String) (body : List Stmt) (span : Span) :
    (hotkey trigger body span).words = .token .hotkey trigger :: blockWords body :=
  words_of_block [.token .hotkey trigger] body (by rw [lines]; rfl)

theorem words_returns (argument : Option Expr) (span : Span) :
    (returns argument span).words = .token .kwReturn "return" :: optional argument :=
  words_of_flat _ (by rw [lines, Word.flat_cons]; rfl)

theorem words_breaks (span : Span) : (breaks span).words = [.token .kwBreak "break"] :=
  words_of_flat _ (by rw [lines, Word.flat_cons]; rfl)

theorem words_continues (span : Span) : (continues span).words = [.token .kwContinue "continue"] :=
  words_of_flat _ (by rw [lines, Word.flat_cons]; rfl)

theorem words_directive (name value : String) (span : Span) :
    (directive name value span).words = .token .directive name :: valueWords value :=
  words_of_flat _ (by rw [lines, Word.flat_cons]; rfl)

theorem words_expression (e : Expr) (span : Span) : (expression e span).words = e.words :=
  words_of_flat _ (by rw [lines, Word.flat_cons]; rfl)

end Stmt

/-- Kinds of tokens that a statement can start with. -/
def startsStmt (kind : Kind) : Bool :=
  startsExpr kind || kind ∈ [.kwIf, .kwWhile, .kwFor, .kwLoop, .kwClass, .kwStatic, .kwReturn,
    .kwBreak, .kwContinue, .hotkey, .directive]

/-- A token behind a finished line that does not belong to the statement before it. -/
def isCalm (kind : Kind) : Bool := kind ∉ [.lBrace, .kwElse, .kwElseIf, .newline]

theorem isCalm_of_startsStmt {kind : Kind} (h : startsStmt kind = true) : isCalm kind = true := by
  revert h
  cases kind <;> decide

/-- The line of a statement ends here, and nothing behind it belongs to the statement. -/
def Settled (rest : List Token) : Prop :=
  ∃ line more, rest = line :: more ∧ line.kind = .newline ∧ isCalm (headKind more) = true

/-- A statement is read back from its words. -/
def FormsStmt (s : Stmt) : Prop :=
  Forms (statement rules) s.words s.cost Settled fun s' => s'.bare = s.bare

theorem reads_skipNewline : Reads skipNewlines [.newline] 0 (· ≠ .newline) fun _ => True := by
  intro s tokens rest spells ahead behind depth
  obtain ⟨t, others, rfl, kind, _, spells⟩ := spells.of_token
  cases spells
  have ahead : s.ahead = t :: rest := ahead
  have skipped : s.skipNewlines = s.advance := by
    rw [State.skipNewlines, ahead, State.skipNewlines.go, if_pos kind]
    cases rest with
    | nil => rfl
    | cons u rest =>
        have other : u.kind ≠ .newline := behind
        rw [State.skipNewlines.go, if_neg other]
  refine .inl ⟨depth, ⟨⟩, s.advance, ?_, past_advance ahead, trivial⟩
  rw [run_skipNewlines, skipped]

theorem recovered_forms {words : List Word} {c : Nat} {next : List Token → Prop}
    {good : Stmt → Prop} (h : Forms (statement rules) words c next good) :
    Forms (recovered rules) words (c + 1) next fun found =>
    ∃ stmt, found = some stmt ∧ good stmt := by
  intro s tokens rest closed spells ahead behind depth
  have inside := (rules_statement ▸ h).nested s.begin tokens rest closed spells ahead behind depth
  rcases inside with ⟨fits, stmt, t, run, past, hs⟩ | ⟨exceeds, spoiled⟩
  · refine .inl ⟨fits, some stmt, t, ?_,
      ⟨past.ahead, past.depth, past.source, past.final, past.skipped⟩, stmt, rfl, hs⟩
    rw [run_recovered, run]
  · refine .inr ⟨exceeds, ?_⟩
    have walk := (rules_returns.statement.nested s.begin).1
    rw [run_recovered]
    generalize (nested rules.statement).run s.begin = outcome at spoiled walk
    obtain ⟨result, t⟩ := outcome
    cases result with
    | ok stmt =>
        rcases spoiled with ⟨e, failed⟩ | dropped
        · cases failed
        · exact .inr dropped
    | error e =>
        have quiet : Walk false t t.synchronize := t.walk_synchronize
        have kept : s.skipped.length ≤ t.skipped.length := walk.skipped_le
        refine .inr ?_
        change s.skipped.length < (_ :: t.synchronize.skipped).length
        rw [quiet.skipped, List.length_cons]
        omega

/-- A condition that ends a body at some tokens and holds at no statement. -/
structure Ending (stop : State → Bool) (ends : List Token → Prop) : Prop where
  going : ∀ s : State, s.ahead ≠ [] → startsStmt s.peek.kind = true → stop s = false
  stopped : ∀ s : State, ends s.ahead → stop s = true
  calm : ∀ tokens, ends tokens → isCalm (headKind tokens) = true

section Rows

variable {stop : State → Bool} {ends : List Token → Prop}

theorem ne_newline_of_isCalm {kind : Kind} (h : isCalm kind = true) : kind ≠ .newline := by
  rintro rfl
  cases h

theorem statementLink_more (h : Ending stop ends) {lead words : List Word} {c : Nat}
    {next : List Token → Prop}
    {good : Stmt → Prop} (leading : Reads skipNewlines lead 0 (· ≠ .newline) fun _ => True)
    (head : Heads (startsStmt · = true) words) (one : Forms (statement rules) words c next good)
    (body : List Stmt) : Forms (statementLink rules stop body) (lead ++ words) (c + 1) next
      fun result => result.2 = true ∧ ∃ stmt, result.1 = stmt :: body ∧ good stmt := by
  have rest :
      Forms (get >>= fun s => if stop s then pure (body, false) else recovered rules >>= fun stmt =>
      pure (stmt.toList ++ body, true)) words (c + 1) next
      fun result => result.2 = true ∧ ∃ stmt, result.1 = stmt :: body ∧ good stmt := by
    refine forms_get (fun s => stop s = false) ?_ ?_
    · intro s tokens rest closed spells ahead behind
      obtain ⟨kind, text, others, rfl, starts⟩ := head
      obtain ⟨t, later, rfl, rfl, _⟩ := spells.of_token
      have ahead : s.ahead = t :: (later ++ rest) := ahead
      refine h.going s ?_ ?_
      · rw [ahead]
        exact List.cons_ne_nil _ _
      · rw [peek_of_cons ahead]
        exact starts
    · intro s going
      rw [going]
      refine (recovered_forms one).wrap ?_
      rintro found ⟨stmt, rfl, hs⟩
      exact ⟨rfl, stmt, rfl, hs⟩
  exact Forms.free leading (fun _ _ => rest)
    (head.follows fun _ starts => ne_newline_of_isCalm (isCalm_of_startsStmt starts))

theorem statementLink_last (h : Ending stop ends) {lead : List Word}
    (leading : Reads skipNewlines lead 0 (· ≠ .newline) fun _ => True) (body : List Stmt) :
    Forms (statementLink rules stop body) lead 0 ends fun result =>
    result.2 = false ∧ result.1 = body := by
  have rest :
      Forms (get >>= fun s => if stop s then pure (body, false) else recovered rules >>= fun stmt =>
      pure (stmt.toList ++ body, true)) [] 0 ends fun result => result.2 = false ∧
          result.1 = body := by
    refine forms_get (fun s => stop s = true) ?_ ?_
    · intro s tokens rest closed spells ahead behind
      cases spells
      have ahead : s.ahead = rest := ahead
      exact h.stopped s (ahead ▸ behind)
    · intro s stopped
      rw [stopped]
      have done : Reads (pure (body, false)) [] 0 (fun _ => True) fun result : List Stmt × Bool =>
          result.2 = false ∧ result.1 = body := reads_pure ⟨rfl, rfl⟩
      exact (Forms.of_reads done).weaken (fun _ => id) fun _ _ => trivial
  have follows : Follows [] ends fun rest => headKind rest ≠ .newline := by
    intro source tokens rest spells behind
    cases spells
    exact ne_newline_of_isCalm (h.calm rest behind)
  have both := Forms.free leading (fun _ _ => rest) follows
  rw [List.append_nil] at both
  exact both

theorem startsStmt_of_expr {kind : Kind} (h : startsExpr kind = true) : startsStmt kind = true := by
  rw [startsStmt, h]
  rfl

theorem words_starts (s : Stmt) : Heads (startsStmt · = true) s.words := by
  cases s with
  | ifs chain => exact Stmt.words_ifs chain ▸ ⟨_, _, _, rfl, rfl⟩
  | whileLoop test body span => exact Stmt.words_whileLoop test body span ▸ ⟨_, _, _, rfl, rfl⟩
  | forLoop names iterable body span =>
      exact Stmt.words_forLoop names iterable body span ▸ ⟨_, _, _, rfl, rfl⟩
  | loop count body span => exact Stmt.words_loop count body span ▸ ⟨_, _, _, rfl, rfl⟩
  | classDecl name nameSpan base body span =>
      exact Stmt.words_classDecl name nameSpan base body span ▸ ⟨_, _, _, rfl, rfl⟩
  | function name nameSpan params body isStatic span =>
      rw [Stmt.words_function]
      cases isStatic <;> exact ⟨_, _, _, rfl, rfl⟩
  | returns argument span => exact Stmt.words_returns argument span ▸ ⟨_, _, _, rfl, rfl⟩
  | breaks span => exact Stmt.words_breaks span ▸ ⟨_, _, _, rfl, rfl⟩
  | continues span => exact Stmt.words_continues span ▸ ⟨_, _, _, rfl, rfl⟩
  | hotkey trigger body span => exact Stmt.words_hotkey trigger body span ▸ ⟨_, _, _, rfl, rfl⟩
  | directive name value span => exact Stmt.words_directive name value span ▸ ⟨_, _, _, rfl, rfl⟩
  | expression e span =>
      rw [Stmt.words_expression]
      exact (words_heads e).imp fun _ => startsStmt_of_expr

/-- The line break behind a statement, with another statement or the end of the body behind it. -/
theorem follows_settled (h : Ending stop ends) (body : List Stmt) :
    Follows ([Word.newline] ++ Word.flat (Stmt.allLines body)) ends Settled := by
  intro source tokens rest spells behind
  obtain ⟨line, others, rfl, kind, _, spells⟩ := spells.of_token
  refine ⟨line, others ++ rest, rfl, kind, ?_⟩
  cases body with
  | nil =>
      cases spells
      exact h.calm rest behind
  | cons s body =>
      have head := (words_starts s).append (.newline :: Word.flat (Stmt.allLines body))
      rw [Stmt.flat_allLines_cons] at spells
      exact head.follows (fun _ => isCalm_of_startsStmt) _ _ _ spells behind

/-- The statements of a body, one after the other. -/
theorem statements_forms (h : Ending stop ends) {lead : List Word}
    (leading : Reads skipNewlines lead 0 (· ≠ .newline) fun _ => True) (body : List Stmt)
    (all : ∀ s ∈ body, FormsStmt s) (before : List Stmt) :
    Forms (repeating (statementLink rules stop) before) (lead ++ Word.flat (Stmt.allLines body))
      (Stmt.bodyCost body) ends fun result =>
      result.reverse.map Stmt.bare = before.reverse.map Stmt.bare ++ body.map Stmt.bare := by
  have climbs := fun b => (statementLink_returns rules_returns stop b).climbs
  induction body generalizing lead before with
  | nil =>
      have last := Forms.repeating_stop (· = before) (statementLink_last h leading before) climbs
      simp only [Stmt.allLines, List.flatMap_nil, Word.flat_nil, List.append_nil,
        Stmt.bodyCost, List.map_nil]
      exact last.weaken (fun result same => by rw [same]) fun _ => id
  | cons s body ih =>
      have head := words_starts s
      have first := statementLink_more h leading head (all s List.mem_cons_self) before
      have later : ∀ b, (∃ stmt, b = stmt :: before ∧ stmt.bare = s.bare) →
          Forms (repeating (statementLink rules stop) b)
          ([.newline] ++ Word.flat (Stmt.allLines body)) (Stmt.bodyCost body) ends fun result =>
            result.reverse.map Stmt.bare =
              before.reverse.map Stmt.bare ++ (s :: body).map Stmt.bare := by
        rintro b ⟨stmt, rfl, same⟩
        refine (ih reads_skipNewline (fun t member => all t (List.mem_cons_of_mem s member))
          (stmt :: before)).weaken ?_ fun _ => id
        intro result done
        rw [done]
        simp [same]
      have nonempty : ∀ source tokens, Spells source (lead ++ s.words) tokens → tokens ≠ [] := by
        intro source tokens spells
        obtain ⟨front, back, rfl, _, spelled⟩ := spells.of_append
        exact List.append_ne_nil_of_right_ne_nil front (head.ne_nil source back spelled)
      have both := Forms.repeating_more _ first nonempty later (follows_settled h body) climbs
      rw [Stmt.flat_allLines_cons, Stmt.bodyCost, ← List.append_assoc]
      exact both

end Rows

end ScriptLens
