import ScriptLens.Proofs.Print.Bodies
import ScriptLens.Proofs.Scan.Local

/-!
Printed lines. Every word of one is a whole token, the trigger of a hotkey or the value of a
directive, and the scanner reads the line back word by word.
-/

namespace ScriptLens

/-- A word that the scanner reads as one token within a line. -/
def Word.isInline : Word → Bool
  | token kind text => isWhole kind text && kind.isInline
  | value _ => false

theorem isWhole_iff {kind : Kind} {text : String} : isWhole kind text = true ↔
    ∃ c rest, text.toList = c :: rest ∧ Lexeme.read c rest = ⟨.token kind, c :: rest, []⟩ := by
  unfold isWhole
  cases chars : text.toList with
  | nil => simp
  | cons c rest =>
      rw [decide_eq_true_iff]
      constructor
      · intro read
        exact ⟨c, rest, rfl, read⟩
      · rintro ⟨d, more, same, read⟩
        cases same
        exact read

theorem run_whole {shape : List Char → Shape} {head rest : List Char} {cls : Char → Bool}
    (all : ∀ c ∈ rest, cls c = true) :
    Lexeme.run shape head cls rest = ⟨shape (head ++ rest), head ++ rest, []⟩ := by
  rw [Lexeme.run, List.takeWhile_eq_self_iff.mpr all, List.dropWhile_eq_nil_iff.mpr all]

theorem isWhole_of_isName {name : String} (h : isName name = true) :
    isWhole (Expr.nameKind (Expr.isMarked name)) name = true := by
  unfold isName at h
  cases chars : name.toList with
  | nil =>
      rw [chars] at h
      cases h
  | cons c rest =>
      simp only [chars, Bool.and_eq_true, bne_iff_ne, ne_eq, List.all_eq_true,
        Option.isNone_iff_eq_none] at h
      obtain ⟨⟨⟨start, part⟩, modulo⟩, keyword⟩ := h
      have kind : Kind.ofWord (c :: rest) = Expr.nameKind (Expr.isMarked name) := by
        rw [← chars, Kind.ofWord, String.ofList_toList]
        simp only [modulo, if_false, keyword]
        rfl
      refine isWhole_iff.mpr ⟨c, rest, chars, ?_⟩
      rw [Lexeme.read_of_isWordStart start, run_whole part, ← kind]
      rfl

theorem isInline_of_isName {name : String} (h : isName name = true) :
    (Word.token (Expr.nameKind (Expr.isMarked name)) name).isInline = true := by
  rw [Word.isInline, isWhole_of_isName h]
  cases Expr.isMarked name <;> rfl

theorem isInline_of_isDeclarable {name : String} (h : isDeclarable name = true) :
    (Word.token .identifier name).isInline = true := by
  rw [isDeclarable, Bool.and_eq_true, Bool.not_eq_true'] at h
  have inline := isInline_of_isName h.1
  rw [h.2] at inline
  exact inline

theorem isInline_of_isDirectiveName {name : String} (h : isDirectiveName name = true) :
    (Word.token .directive name).isInline = true := by
  unfold isDirectiveName at h
  cases chars : name.toList with
  | nil =>
      rw [chars] at h
      cases h
  | cons c rest =>
      simp only [chars, Bool.and_eq_true, decide_eq_true_eq, List.all_eq_true] at h
      obtain ⟨rfl, part⟩ := h
      have read :
        Lexeme.read '#' rest = Lexeme.run (fun _ => .token .directive) ['#'] isWordPart rest := rfl
      rw [Word.isInline, isWhole_iff.mpr ⟨'#', rest, chars, read.trans (run_whole part)⟩]
      rfl

/-- Words that are all read as tokens within a line. -/
def Inline (words : List Word) : Prop := ∀ w ∈ words, w.isInline = true

@[simp] theorem inline_nil : Inline [] := by
  intro w member
  cases member

@[simp] theorem inline_cons {w : Word} {words : List Word} : Inline (w :: words) ↔
      w.isInline = true ∧ Inline words :=
  List.forall_mem_cons

@[simp] theorem inline_append {words more : List Word} : Inline (words ++ more) ↔
      Inline words ∧ Inline more :=
  List.forall_mem_append

@[simp] theorem isInline_lParen : Word.lParen.isInline = true := rfl
@[simp] theorem isInline_rParen : Word.rParen.isInline = true := rfl
@[simp] theorem isInline_lBrace : Word.lBrace.isInline = true := rfl
@[simp] theorem isInline_rBrace : Word.rBrace.isInline = true := rfl
@[simp] theorem isInline_comma : Word.comma.isInline = true := rfl
@[simp] theorem isInline_dot : Word.dot.isInline = true := rfl
@[simp] theorem isInline_assign : Word.assign.isInline = true := rfl

@[simp] theorem isInline_binary (operator : BinaryOp) :
    (Word.token operator.kind operator.text).isInline = true := by
  cases operator <;> rfl

@[simp] theorem isInline_unary (operator : UnaryOp) :
    (Word.token operator.kind operator.text).isInline = true := by
  cases operator <;> rfl

@[simp] theorem inline_grouped {words : List Word} {needed : Bool} :
    Inline (Word.grouped needed words) ↔ Inline words := by
  cases needed <;> simp [Word.grouped]

theorem inline_separated {items : List (List Word)} (h : ∀ item ∈ items, Inline item) :
    Inline (Word.separated items) := by
  induction items with
  | nil => exact inline_nil
  | cons item items ih =>
      have here := h item List.mem_cons_self
      have later := ih fun i member => h i (List.mem_cons_of_mem item member)
      cases items with
      | nil => exact here
      | cons next items => simp [Word.separated, here, later]

/-- Every word of an expression that can be printed is a whole token. -/
theorem inline_words (e : Expr) : e.wellFormed = true → Inline e.words := by
  induction e using Expr.tree_induction with
  | assignment target value span iht ihv =>
      intro wf
      simp only [Expr.wellFormed, Bool.and_eq_true] at wf
      simp [Expr.words, iht wf.1.2, ihv wf.2]
  | binary operator left right span ihl ihr =>
      intro wf
      simp only [Expr.wellFormed, Bool.and_eq_true] at wf
      simp [Expr.words, ihl wf.1, ihr wf.2]
  | unary operator argument span ih =>
      intro wf
      rw [Expr.wellFormed] at wf
      simp [Expr.words, ih wf]
  | call callee arguments span ihc iha =>
      intro wf
      simp only [Expr.wellFormed, Bool.and_eq_true] at wf
      have items : Inline (Word.separated (arguments.map Expr.words)) := by
        refine inline_separated ?_
        intro item member
        obtain ⟨a, inside, rfl⟩ := List.mem_map.mp member
        exact iha a inside (Expr.mem_wellFormed wf.2 inside)
      simp [Expr.words, Expr.listed_eq, ihc wf.1, items]
  | member object property span ih =>
      intro wf
      simp only [Expr.wellFormed, Bool.and_eq_true] at wf
      simp [Expr.words, ih wf.1, isInline_of_isName wf.2]
  | literal value raw span =>
      intro wf
      simp only [Expr.wellFormed, Bool.and_eq_true] at wf
      have kind : value.kind.isInline = true := by
        cases value with
        | boolean b => cases b <;> rfl
        | _ => rfl
      simp [Expr.words, Word.isInline, wf.1, kind]
  | name n builtin span =>
      intro wf
      simp only [Expr.wellFormed, Bool.and_eq_true, beq_iff_eq] at wf
      simp [Expr.words, wf.2, isInline_of_isName wf.1]

/-- A line that the scanner reads back. -/
inductive IsLine : List Word → Prop
  | inline {words} : Inline words → IsLine words
  | hotkey {trigger} : isTrigger trigger = true → IsLine [.token .hotkey trigger, .lBrace]
  | directive {name value} : isDirectiveName name = true → isDirectiveValue value = true →
      value ≠ "" → IsLine [.token .directive name, .value value]

/-- Lines that the scanner reads back. -/
def AreLines (lines : List (List Word)) : Prop := ∀ line ∈ lines, IsLine line

@[simp] theorem areLines_nil : AreLines [] := by
  intro line member
  cases member

@[simp] theorem areLines_cons {line : List Word} {lines : List (List Word)} :
    AreLines (line :: lines) ↔ IsLine line ∧ AreLines lines :=
  List.forall_mem_cons

@[simp] theorem areLines_append {lines more : List (List Word)} :
    AreLines (lines ++ more) ↔ AreLines lines ∧ AreLines more :=
  List.forall_mem_append

theorem areLines_all {body : List Stmt} (h : ∀ s ∈ body, AreLines s.lines) :
    AreLines (Stmt.allLines body) := by
  intro line member
  obtain ⟨s, inside, here⟩ := List.mem_flatMap.mp member
  exact h s inside line here

theorem areLines_block {body : List Stmt} (h : ∀ s ∈ body, AreLines s.lines) :
    AreLines (Stmt.blockLines body) := by
  rw [Stmt.blockLines_eq, areLines_append]
  refine ⟨areLines_all h, ?_⟩
  simp [IsLine.inline]

theorem inline_optional {e : Option Expr} (wf : e.all Expr.wellFormed = true) :
    Inline (Stmt.optional e) := by
  cases e with
  | none => exact inline_nil
  | some e => exact inline_words e wf

theorem inline_names {names : List String} (wf : names.all isDeclarable = true) :
    Inline (Stmt.nameWords names) := by
  refine inline_separated ?_
  intro item member
  obtain ⟨n, inside, rfl⟩ := List.mem_map.mp member
  simp [isInline_of_isDeclarable (List.all_eq_true.mp wf n inside)]

theorem inline_param {p : Param} (wf : p.wellFormed = true) : Inline p.words := by
  rw [Param.wellFormed, Bool.and_eq_true] at wf
  have byRef : (Word.token .ampersand "&").isInline = true := rfl
  have variadic : (Word.token .multiply "*").isInline = true := rfl
  have default : Inline (Param.defaultWords p.default) := by
    cases given : p.default with
    | none => exact inline_nil
    | some e =>
        rw [given] at wf
        simp [Param.defaultWords, Expr.wordsAt, inline_words e wf.2]
  rw [Param.words]
  split <;> split <;> simp [byRef, variadic, default, isInline_of_isDeclarable wf.1]

/-- The words that open statements, or stand between the parts of one. -/
theorem inline_keywords : Inline [.token .kwIf "if", .token .kwElse "else", .token .kwWhile "while",
    .token .kwFor "for", .token .kwIn "in", .token .kwLoop "loop", .token .kwClass "class",
    .token .kwStatic "static", .token .kwReturn "return", .token .kwBreak "break",
    .token .kwContinue "continue", .token .identifier "extends"] := by
  unfold Inline
  decide +kernel

/-- Every line of a statement that can be printed is read back. -/
theorem areLines (s : Stmt) : s.wellFormed = true → AreLines s.lines := by
  have inside : ∀ {body : List Stmt}, (∀ s ∈ body, s.wellFormed = true → AreLines s.lines) →
      Stmt.allWellFormed body = true → AreLines (Stmt.blockLines body) :=
    fun all wf => areLines_block fun s member => all s member (Stmt.mem_wellFormed wf member)
  refine Stmt.tree_induction (fun s => s.wellFormed = true → AreLines s.lines)
    (fun chain => Stmt.chainWellFormed chain = true → ∀ opening, Inline opening →
      AreLines (Stmt.chainLines opening chain)) (fun rest => Stmt.alternateWellFormed rest = true →
    AreLines (Stmt.alternateLines rest)) ?ifs ?whileLoop ?forLoop ?loop ?classDecl ?function
    ?returns ?breaks ?continues ?hotkey ?directive ?expression ?mk ?absent ?elseIf ?otherwise s
  all_goals simp only [Stmt.wellFormed, Stmt.chainWellFormed, Stmt.alternateWellFormed,
    Bool.and_eq_true,
    Stmt.lines, Stmt.chainLines, Stmt.alternateLines, areLines_cons, areLines_append]
  all_goals have words := inline_keywords
  all_goals simp only [inline_cons] at words
  case ifs => exact fun chain h wf => h wf _ (by simp [words])
  case whileLoop =>
    intro test body span all wf
    exact ⟨.inline (by simp [words, inline_words test wf.1]), inside all wf.2⟩
  case forLoop =>
    intro names iterable body span all wf
    exact ⟨.inline (by simp [words, inline_names wf.1.1.2, inline_words iterable wf.1.2]),
      inside all wf.2⟩
  case loop =>
    intro count body span all wf
    exact ⟨.inline (by simp [words, inline_optional wf.1]), inside all wf.2⟩
  case classDecl =>
    intro name nameSpan base body span all wf
    have named := isInline_of_isDeclarable wf.1.1
    refine ⟨.inline ?_, inside all wf.2⟩
    cases base with
    | none => simp [words, named, Stmt.baseWords]
    | some base => simp [words, named, Stmt.baseWords, isInline_of_isDeclarable wf.1.2]
  case function =>
    intro name nameSpan params body isStatic span all wf
    have named := isInline_of_isDeclarable wf.1.1
    have items : Inline (Word.separated (params.map Param.words)) := by
      refine inline_separated ?_
      intro item member
      obtain ⟨p, here, rfl⟩ := List.mem_map.mp member
      exact inline_param (List.all_eq_true.mp wf.1.2 p here)
    refine ⟨.inline ?_, inside all wf.2⟩
    cases isStatic <;> simp [words, named, items, Stmt.staticWords]
  case returns =>
    intro argument span wf
    exact ⟨.inline (by simp [words, inline_optional wf]), areLines_nil⟩
  case breaks => exact fun span _ => ⟨.inline (by simp [words]), areLines_nil⟩
  case continues => exact fun span _ => ⟨.inline (by simp [words]), areLines_nil⟩
  case hotkey => exact fun trigger body span all wf => ⟨.hotkey wf.1, inside all wf.2⟩
  case directive =>
    intro name value span wf
    refine ⟨?_, areLines_nil⟩
    by_cases empty : value = ""
    · rw [Stmt.valueWords, if_pos empty]
      exact .inline (by simp [isInline_of_isDirectiveName wf.1])
    · rw [Stmt.valueWords, if_neg empty]
      exact .directive wf.1 wf.2 empty
  case expression => exact fun e span wf => ⟨.inline (inline_words e wf), areLines_nil⟩
  case mk =>
    intro test consequent rest span all behind wf opening opens
    exact ⟨.inline (by simp [opens, inline_words test wf.1.1]), inside all wf.1.2, behind wf.2⟩
  case absent => exact fun _ => areLines_nil
  case elseIf => exact fun next h wf => h wf _ (by simp [words])
  case otherwise => exact fun body all wf => ⟨.inline (by simp [words]), inside all wf⟩

end ScriptLens
