import ScriptLens.Proofs.Print.Words

/-!
Trees that have a canonical form, the levels of the depth counter that reading it back takes, and
trees without their spans.
-/

namespace ScriptLens

/-- Whether a text is one whole token of a kind. -/
def isWhole (kind : Kind) (text : String) : Bool :=
  match text.toList with
  | [] => false
  | c :: rest => Lexeme.read c rest = ⟨.token kind, c :: rest, []⟩

/-- A word of letters, digits and underscores that is no keyword. -/
def isName (name : String) : Bool :=
  match name.toList with
  | [] => false
  | c :: rest =>
    isWordStart c && rest.all isWordPart && Text.foldAscii name != "mod" &&
      (Kind.keyword? (Text.foldAscii name)).isNone

/-- A name that may be declared. -/
def isDeclarable (name : String) : Bool := isName name && !Expr.isMarked name

namespace Literal

/-- Whether the value is the one that its spelling has. -/
def isSpelled (raw : String) : Literal → Bool
  | number value => value = .ofLiteral raw.toList
  | string value => value = Parser.stringValue raw
  | boolean _ | null => true

end Literal

namespace Expr

mutual

def wellFormed : Expr → Bool
  | assignment target value _ => target.isTarget && target.wellFormed && value.wellFormed
  | binary _ left right _ => left.wellFormed && right.wellFormed
  | unary _ argument _ => argument.wellFormed
  | call callee arguments _ => callee.wellFormed && allWellFormed arguments
  | member object property _ => object.wellFormed && isName property
  | literal value raw _ => isWhole value.kind raw && value.isSpelled raw
  | name n builtin _ => isName n && builtin == isMarked n

def allWellFormed : List Expr → Bool
  | [] => true
  | e :: rest => e.wellFormed && allWellFormed rest

end

/-- The links of the chain that ends in an expression, operators of one level or calls and
members. -/
def links : Expr → Nat
  | binary operator left _ _ => (if left.level = operator.level then left.links else 0) + 1
  | call callee _ _ => (if callee.level = 8 then callee.links else 0) + 1
  | member object _ _ => (if object.level = 8 then object.links else 0) + 1
  | _ => 0

/-- The links of a chain of some level that an operand opens. -/
def linksAt (level : Nat) (e : Expr) : Nat := if e.level = level then e.links else 0

/-- Parentheses take a level of their own. -/
def groupedCost (needed : Bool) (cost : Nat) : Nat := if needed then cost + 1 else cost

mutual

/-- The levels of the depth counter that an expression takes. -/
def cost : Expr → Nat
  | assignment target value _ =>
    max (groupedCost (target.level < 1) target.cost) (value.cost + 1)
  | binary operator left right _ =>
    max (groupedCost (left.level < operator.level) left.cost) (linksAt operator.level left +
      (1 + groupedCost (right.level < operator.level + 1) right.cost))
  | unary _ argument _ => groupedCost (argument.level < 7) argument.cost + 1
  | call callee arguments _ =>
    max (groupedCost (callee.level < 8) callee.cost) (linksAt 8 callee + (1 + listedCost arguments))
  | member object _ _ =>
    max (groupedCost (object.level < 8) object.cost) (linksAt 8 object + 1)
  | literal .. | name .. => 0

def listedCost : List Expr → Nat
  | [] => 0
  | e :: rest => max (e.cost + 1) (listedCost rest)

end

def costAt (level : Nat) (e : Expr) : Nat := groupedCost (e.level < level) e.cost

theorem listedCost_eq (es : List Expr) : listedCost es = (es.map (·.cost + 1)).foldr max 0 := by
  induction es with
  | nil => simp [listedCost]
  | cons e es ih => simp [listedCost, ih]

theorem links_le_cost (e : Expr) : e.links ≤ e.cost := by
  cases e with
  | binary operator left right span =>
      simp only [links, cost, linksAt]
      omega
  | call callee arguments span =>
      simp only [links, cost, linksAt]
      omega
  | member object property span =>
      simp only [links, cost, linksAt]
      omega
  | _ => exact Nat.zero_le _

theorem linksAt_le_costAt (level : Nat) (e : Expr) : e.linksAt level ≤ e.costAt level := by
  have le := links_le_cost e
  unfold linksAt costAt groupedCost
  split <;> split <;> omega

theorem wordsAt_of_le {level : Nat} {e : Expr} (h : level ≤ e.level) :
    e.wordsAt level = e.words := by
  rw [wordsAt, decide_eq_false (Nat.not_lt.mpr h)]
  rfl

theorem wordsAt_of_lt {level : Nat} {e : Expr} (h : e.level < level) :
    e.wordsAt level = Word.lParen :: e.words ++ [Word.rParen] := by
  rw [wordsAt, decide_eq_true h]
  rfl

theorem costAt_of_le {level : Nat} {e : Expr} (h : level ≤ e.level) : e.costAt level = e.cost := by
  rw [costAt, decide_eq_false (Nat.not_lt.mpr h)]
  rfl

theorem costAt_of_lt {level : Nat} {e : Expr} (h : e.level < level) :
    e.costAt level = e.cost + 1 := by
  rw [costAt, decide_eq_true h]
  rfl

theorem linksAt_self (e : Expr) : e.linksAt e.level = e.links := if_pos rfl

mutual

/-- An expression without its spans. -/
def bare : Expr → Expr
  | assignment target value _ => assignment target.bare value.bare default
  | binary operator left right _ => binary operator left.bare right.bare default
  | unary operator argument _ => unary operator argument.bare default
  | call callee arguments _ => call callee.bare (allBare arguments) default
  | member object property _ => member object.bare property default
  | literal value raw _ => literal value raw default
  | name n builtin _ => name n builtin default

def allBare : List Expr → List Expr
  | [] => []
  | e :: rest => e.bare :: allBare rest

end

theorem allBare_eq (es : List Expr) : allBare es = es.map bare := by
  induction es with
  | nil => simp [allBare]
  | cons e es ih => simp [allBare, ih]

theorem mem_wellFormed {es : List Expr} (h : allWellFormed es = true) {e : Expr} (member : e ∈ es) :
    e.wellFormed = true := by
  induction es with
  | nil => cases member
  | cons first es ih =>
      rw [allWellFormed, Bool.and_eq_true] at h
      rcases List.mem_cons.mp member with rfl | inside
      · exact h.1
      · exact ih h.2 inside

/-- Induction over expressions, with the arguments of a call at once. -/
theorem tree_induction {P : Expr → Prop}
    (assignment : ∀ target value span, P target → P value → P (assignment target value span))
    (binary : ∀ operator left right span, P left → P right → P (binary operator left right span))
    (unary : ∀ operator argument span, P argument → P (unary operator argument span)) (call :
      ∀ callee arguments span, P callee → (∀ a ∈ arguments, P a) → P (call callee arguments span))
    (member : ∀ object property span, P object → P (member object property span))
    (literal : ∀ value raw span, P (literal value raw span))
    (name : ∀ n builtin span, P (name n builtin span)) (e : Expr) : P e := by
  refine @Expr.rec P
    (fun es => ∀ a ∈ es, P a) assignment binary unary call member literal name ?_ ?_ e
  · intro a inside
    cases inside
  · intro first rest one all a inside
    rcases List.mem_cons.mp inside with rfl | later
    · exact one
    · exact all a later

end Expr

namespace Param

def wellFormed (p : Param) : Bool := isDeclarable p.name && p.default.all Expr.wellFormed

def cost (p : Param) : Nat := (p.default.map fun e => e.costAt 1 + 1).getD 0

def bare (p : Param) : Param :=
  { p with default := p.default.map Expr.bare, span := Inhabited.default }

end Param

/-- A trigger with its colons: no blank at either end of it and nothing in it that the scanner would
take for something else. -/
def isTrigger (text : String) : Bool :=
  let trigger := text.toList.take (text.toList.length - 2)
  text.toList = trigger ++ [':', ':'] && trigger.all (fun c => c ∉ [':', ';', '"', '\n']) &&
    !trigger.head?.any isBlank && !trigger.getLast?.any isBlank

def isDirectiveName (name : String) : Bool :=
  match name.toList with
  | [] => false
  | c :: rest => c = '#' && rest.all isWordPart

/-- A text on one line that holds no comment, string or hotkey and has no white space at its
ends. -/
def isDirectiveValue (value : String) : Bool :=
  let edge := fun c => Text.isSpace c || c = '\ufeff'
  value.toList.all (fun c => c ∉ [';', '"', '\n']) && !Text.contains [':', ':'] value.toList &&
    !value.toList.head?.any edge && !value.toList.getLast?.any edge

namespace Stmt

def optionalCost (e : Option Expr) : Nat := (e.map (·.cost + 1)).getD 0

mutual

def wellFormed : Stmt → Bool
  | ifs chain => chainWellFormed chain
  | whileLoop test body _ => test.wellFormed && allWellFormed body
  | forLoop names iterable body _ =>
    names ≠ [] && names.all isDeclarable && iterable.wellFormed && allWellFormed body
  | loop count body _ => count.all Expr.wellFormed && allWellFormed body
  | classDecl name _ superClass body _ =>
    isDeclarable name && superClass.all isDeclarable && allWellFormed body
  | function name _ params body _ _ =>
    isDeclarable name && params.all Param.wellFormed && allWellFormed body
  | returns argument _ => argument.all Expr.wellFormed
  | breaks _ | continues _ => true
  | hotkey trigger body _ => isTrigger trigger && allWellFormed body
  | directive name value _ => isDirectiveName name && isDirectiveValue value
  | expression e _ => e.wellFormed

def chainWellFormed : IfChain → Bool
  | .mk test consequent alternate _ =>
    test.wellFormed && allWellFormed consequent && alternateWellFormed alternate

def alternateWellFormed : Alternate → Bool
  | .absent => true
  | .elseIf next => chainWellFormed next
  | .otherwise body => allWellFormed body

def allWellFormed : List Stmt → Bool
  | [] => true
  | s :: rest => s.wellFormed && allWellFormed rest

end

mutual

/-- The levels of the depth counter that a statement takes. -/
def cost : Stmt → Nat
  | ifs chain => chainCost chain
  | whileLoop test body _ => max (test.cost + 1) (bodyCost body)
  | forLoop _ iterable body _ => max (iterable.cost + 1) (bodyCost body)
  | loop count body _ => max (optionalCost count) (bodyCost body)
  | classDecl _ _ _ body _ => bodyCost body
  | function _ _ params body _ _ => max ((params.map Param.cost).foldr max 0) (bodyCost body)
  | returns argument _ => optionalCost argument
  | breaks _ | continues _ | directive .. => 0
  | hotkey _ body _ => bodyCost body
  | expression e _ => e.cost + 1

def chainCost : IfChain → Nat
  | .mk test consequent alternate _ =>
    max (test.cost + 1) (max (bodyCost consequent) (alternateCost alternate))

def alternateCost : Alternate → Nat
  | .absent => 0
  | .elseIf next => chainCost next + 1
  | .otherwise body => bodyCost body

def bodyCost : List Stmt → Nat
  | [] => 0
  | s :: rest => max (s.cost + 1) (bodyCost rest)

end

mutual

/-- A statement without its spans. -/
def bare : Stmt → Stmt
  | ifs chain => ifs (bareChain chain)
  | whileLoop test body _ => whileLoop test.bare (allBare body) default
  | forLoop names iterable body _ => forLoop names iterable.bare (allBare body) default
  | loop count body _ => loop (count.map Expr.bare) (allBare body) default
  | classDecl name _ superClass body _ => classDecl name default superClass (allBare body) default
  | function name _ params body isStatic _ =>
    function name default (params.map Param.bare) (allBare body) isStatic default
  | returns argument _ => returns (argument.map Expr.bare) default
  | breaks _ => breaks default
  | continues _ => continues default
  | hotkey trigger body _ => hotkey trigger (allBare body) default
  | directive name value _ => directive name value default
  | expression e _ => expression e.bare default

def bareChain : IfChain → IfChain
  | .mk test consequent alternate _ =>
    .mk test.bare (allBare consequent) (bareAlternate alternate) default

def bareAlternate : Alternate → Alternate
  | .absent => .absent
  | .elseIf next => .elseIf (bareChain next)
  | .otherwise body => .otherwise (allBare body)

def allBare : List Stmt → List Stmt
  | [] => []
  | s :: rest => s.bare :: allBare rest

end

end Stmt

namespace Stmt

attribute [simp] cost bare

theorem allBare_eq (body : List Stmt) : allBare body = body.map bare := by
  induction body with
  | nil => simp [allBare]
  | cons s body ih => simp [allBare, ih]

theorem mem_wellFormed {body : List Stmt} (h : allWellFormed body = true) {s : Stmt}
    (member : s ∈ body) : s.wellFormed = true := by
  induction body with
  | nil => cases member
  | cons first body ih =>
      rw [allWellFormed, Bool.and_eq_true] at h
      rcases List.mem_cons.mp member with rfl | inside
      · exact h.1
      · exact ih h.2 inside

/-- Induction over statements, with the chains in them and with a whole body at once. -/
theorem tree_induction (P : Stmt → Prop) (Q : IfChain → Prop) (R : Alternate → Prop)
    (ifs : ∀ chain, Q chain → P (ifs chain))
    (whileLoop : ∀ test body span, (∀ s ∈ body, P s) → P (whileLoop test body span))
    (forLoop : ∀ names iterable body span, (∀ s ∈ body, P s) → P (forLoop names iterable body span))
    (loop : ∀ count body span, (∀ s ∈ body, P s) → P (loop count body span))
    (classDecl : ∀ name nameSpan base body span, (∀ s ∈ body, P s) →
      P (classDecl name nameSpan base body span))
    (function : ∀ name nameSpan params body isStatic span, (∀ s ∈ body, P s) →
      P (function name nameSpan params body isStatic span))
    (returns : ∀ argument span, P (returns argument span)) (breaks : ∀ span, P (breaks span))
    (continues : ∀ span, P (continues span))
    (hotkey : ∀ trigger body span, (∀ s ∈ body, P s) → P (hotkey trigger body span))
    (directive : ∀ name value span, P (directive name value span))
    (expression : ∀ e span, P (expression e span)) (mk : ∀ test consequent rest span,
      (∀ s ∈ consequent, P s) → R rest → Q (.mk test consequent rest span))
    (absent : R .absent) (elseIf : ∀ next, Q next → R (.elseIf next))
    (otherwise : ∀ body, (∀ s ∈ body, P s) → R (.otherwise body)) (s : Stmt) : P s := by
  refine @Stmt.rec P Q R (fun body => ∀ s ∈ body, P s) ifs whileLoop forLoop loop classDecl function
    returns breaks continues hotkey directive expression mk absent elseIf otherwise ?_ ?_ s
  · intro a inside
    cases inside
  · intro first rest one all a inside
    rcases List.mem_cons.mp inside with rfl | later
    · exact one
    · exact all a later

end Stmt

namespace Program

def wellFormed (p : Program) : Bool := Stmt.allWellFormed p.body

/-- The levels of the depth counter that a script takes. -/
def cost (p : Program) : Nat := Stmt.bodyCost p.body

end Program

end ScriptLens
