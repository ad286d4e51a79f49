import ScriptLens.Proofs.Grammar.Sound
import ScriptLens.Proofs.Lockstep.Alone

/-!
Where the expressions of a tree stand among the tokens. Every expression that a rule finds is
derived from tokens in a row, whatever was dropped around it; so is each part of it, and in front of
a target's sign nothing but parentheses can close.
-/

namespace ScriptLens

open ParseM ScriptLens.Parser Grammar

namespace Expr

mutual

/-- An expression and all expressions inside it. -/
def parts : Expr → List Expr
  | assignment target value span => assignment target value span :: (parts target ++ parts value)
  | binary operator left right span =>
      binary operator left right span :: (parts left ++ parts right)
  | unary operator argument span => unary operator argument span :: parts argument
  | call callee arguments span =>
      call callee arguments span :: (parts callee ++ listedParts arguments)
  | member object property span => member object property span :: parts object
  | literal value raw span => [literal value raw span]
  | name n builtin span => [name n builtin span]

def listedParts : List Expr → List Expr
  | [] => []
  | e :: rest => parts e ++ listedParts rest

end

theorem listedParts_eq (es : List Expr) : listedParts es = es.flatMap parts := by
  induction es with
  | nil => rfl
  | cons e es ih => rw [listedParts, ih, List.flatMap_cons]

end Expr

namespace Stmt

mutual

/-- The expressions that a statement and the statements inside it are made of. -/
def roots : Stmt → List Expr
  | ifs chain => rootsOfChain chain
  | whileLoop test body _ => test :: listedRoots body
  | forLoop _ iterable body _ => iterable :: listedRoots body
  | loop count body _ => count.toList ++ listedRoots body
  | classDecl _ _ _ body _ => listedRoots body
  | function _ _ params body _ _ => params.flatMap (·.default.toList) ++ listedRoots body
  | returns argument _ => argument.toList
  | hotkey _ body _ => listedRoots body
  | breaks _ | continues _ | directive .. => []
  | expression e _ => [e]

def rootsOfChain : IfChain → List Expr
  | .mk test consequent alternate _ =>
      test :: (listedRoots consequent ++ rootsOfAlternate alternate)

def rootsOfAlternate : Alternate → List Expr
  | .absent => []
  | .elseIf next => rootsOfChain next
  | .otherwise body => listedRoots body

def listedRoots : List Stmt → List Expr
  | [] => []
  | s :: rest => roots s ++ listedRoots rest

end

theorem listedRoots_eq (body : List Stmt) : listedRoots body = body.flatMap roots := by
  induction body with
  | nil => rfl
  | cons s rest ih => rw [listedRoots, ih, List.flatMap_cons]

end Stmt

/-- All expressions of a tree. -/
def Program.expressions (p : Program) : List Expr := (Stmt.listedRoots p.body).flatMap Expr.parts

namespace Grammar

variable {gap : List Token → Prop} {level level' : Nat} {all more ts : List Token} {e : Expr}

theorem Derives.loosen (h : Derives gap level ts e) (low : level' ≤ level) :
    Derives gap level' ts e := by
  induction low with
  | refl => exact h
  | step _ ih => exact ih (.tighter h)

/-- The expression is derived from some of the tokens that follow one another. -/
def Placed (all : List Token) (e : Expr) : Prop := ∃ ts, ts <:+: all ∧ Derives LineBreaks 0 ts e

theorem Placed.mono (h : Placed all e) (inside : all <:+: more) : Placed more e := by
  obtain ⟨ts, infixed, derives⟩ := h
  exact ⟨ts, infixed.trans inside, derives⟩

theorem Derives.placed (h : Derives LineBreaks level ts e) : Placed ts e :=
  ⟨ts, List.infix_rfl, h.loosen (Nat.zero_le level)⟩

/-- Some expressions are all placed. -/
def AllPlaced (all : List Token) (es : List Expr) : Prop := ∀ e ∈ es, Placed all e

section Lists

variable {es es' : List Expr}

theorem allPlaced_nil : AllPlaced all [] := List.forall_mem_nil _

theorem AllPlaced.cons (h : Placed all e) (h' : AllPlaced all es) : AllPlaced all (e :: es) :=
  List.forall_mem_cons.mpr ⟨h, h'⟩

theorem AllPlaced.append (h : AllPlaced all es) (h' : AllPlaced all es') :
    AllPlaced all (es ++ es') :=
  List.forall_mem_append.mpr ⟨h, h'⟩

theorem AllPlaced.mono (h : AllPlaced all es) (inside : all <:+: more) : AllPlaced more es :=
  fun e member => (h e member).mono inside

theorem allPlaced_flatMap {α : Type} {items : List α} {found : α → List Expr} :
    AllPlaced all (items.flatMap found) ↔ ∀ a ∈ items, AllPlaced all (found a) := by
  simp only [AllPlaced, List.mem_flatMap]
  exact ⟨fun h a member e inside => h e ⟨a, member, inside⟩,
    fun h e ⟨a, member, inside⟩ => h a member e inside⟩

end Lists

section Parts

variable {us vs : List Token} {item : List Token × Expr} {items : List (List Token × Expr)}

theorem Row.within (row : Row gap items ts) (member : item ∈ items) : item.1 <:+: ts := by
  induction row with
  | last ends =>
      rw [List.mem_singleton.mp member]
      exact (List.prefix_append _ _).isInfix
  | @more first items before after ts comma _ _ _ _ ih =>
      rcases List.mem_cons.mp member with rfl | later
      · exact (List.prefix_append _ _).isInfix
      · have behind : ts <:+ first.1 ++ (before ++ comma :: (after ++ ts)) :=
          ⟨first.1 ++ (before ++ comma :: after), by simp⟩
        exact (ih later).trans behind.isInfix

theorem Inside.within (listed : Inside gap items ts) (member : item ∈ items) : item.1 <:+: ts := by
  cases listed with
  | none _ => cases member
  | some _ row => exact (row.within member).trans (List.suffix_append _ _).isInfix

/-- All parts of an expression stand among its tokens. -/
theorem Derives.parts (h : Derives LineBreaks level ts e) : AllPlaced ts e.parts := by
  have left {us vs : List Token} {es : List Expr} (h : AllPlaced us es) : AllPlaced (us ++ vs) es :=
    h.mono (List.prefix_append us vs).isInfix
  have right {us vs : List Token} {es : List Expr} (h : AllPlaced vs es) :
      AllPlaced (us ++ vs) es :=
    h.mono (List.suffix_append us vs).isInfix
  induction h with
  | @assignment target value ts us sign first assignable kind second ihl ihr =>
      rw [Expr.parts]
      exact .cons (Derives.assignment first assignable kind second).placed
        ((left ihl).append (right (ihr.mono (List.suffix_cons sign us).isInfix)))
  | @binary operator x y ts us sign first kind second ihl ihr =>
      rw [Expr.parts]
      exact .cons (Derives.binary first kind second).placed
        ((left ihl).append (right (ihr.mono (List.suffix_cons sign us).isInfix)))
  | @unary operator argument ts sign kind operand ih =>
      rw [Expr.parts]
      exact .cons (Derives.unary kind operand).placed (ih.mono (List.suffix_cons sign ts).isInfix)
  | @call callee items ts inside opening closing before opens listed arguments closes ihc iha =>
      rw [Expr.parts, Expr.listedParts_eq, List.flatMap_map]
      refine .cons (Derives.call before opens listed arguments closes).placed
        ((left ihc).append (right ?_))
      refine allPlaced_flatMap.mpr fun item member => (iha item member).mono ?_
      exact (listed.within member).trans ⟨[opening], [closing], by simp⟩
  | @member object ts dot name before kind named ih =>
      rw [Expr.parts]
      exact .cons (Derives.member before kind named).placed (left ih)
  | @leaf t e leaf =>
      have alone : e.parts = [e] := by
        unfold Token.leaf? at leaf
        split at leaf
        case h_8 => cases leaf
        all_goals
          cases leaf
          rfl
      rw [alone]
      exact .cons (Derives.leaf leaf).placed allPlaced_nil
  | @group e ts opening closing opens inside closes ih =>
      exact ih.mono ⟨[opening], [closing], by simp⟩
  | tighter _ ih => exact ih

end Parts

end Grammar

namespace Parser

variable {all : List Token}

/-- A parser that reads some tokens, wherever it stands. -/
def Reading (all : List Token) (s : State) : Prop := s.Closed ∧ s.ahead <:+ all

theorem stable_reading : Stable (Reading all) where
  closed := And.left
  walk here walk _ := ⟨here.1.walk walk, walk.suffix.trans here.2⟩

/-- Trees whose expressions are placed. -/
def placedParts (all : List Token) : Parts where
  Exprs e _ := Placed all e
  Chains c _ := AllPlaced all (Stmt.rootsOfChain c)
  Stmts s _ := AllPlaced all s.roots

section Layers

theorem placed_of_body {body body' : List Stmt}
    (h : List.Forall₂ (placedParts all).Stmts body body') :
    AllPlaced all (Stmt.listedRoots body) := by
  rw [Stmt.listedRoots_eq]
  exact allPlaced_flatMap.mpr (forall_of_forall₂ h)

theorem placed_of_option {e e' : Option Expr} (h : Option.Rel (placedParts all).Exprs e e') :
    AllPlaced all e.toList :=
  fun found member => forall_of_rel h found (Option.mem_toList.mp member)

theorem placed_of_alternate {rest rest' : Alternate} (h : (placedParts all).Alternate rest rest') :
    AllPlaced all (Stmt.rootsOfAlternate rest) := by
  cases h with
  | absent => exact allPlaced_nil
  | elseIf next => exact next
  | otherwise body => exact placed_of_body body

variable {S : Sides}

theorem placed_of_chain {c c' : IfChain} (h : (placedParts all).Chain S c c') :
    AllPlaced all (Stmt.rootsOfChain c) := by
  cases h with
  | mk test body rest _ =>
      exact .cons test ((placed_of_body body).append (placed_of_alternate rest))

theorem placed_of_params {params params' : List Param}
    (h : List.Forall₂ ((placedParts all).Param S) params params') :
    AllPlaced all (params.flatMap (·.default.toList)) := by
  have each := h.imp fun p q (same : (placedParts all).Param S p q) => placed_of_option same.default
  exact allPlaced_flatMap.mpr (forall_of_forall₂ each)

/-- A statement whose parts hold placed expressions holds placed expressions. -/
theorem placed_of_layer {s s' : Stmt} (h : (placedParts all).Layer S s s') :
    AllPlaced all s.roots := by
  cases h with
  | ifs chain => exact placed_of_chain chain
  | whileLoop test body _ => exact .cons test (placed_of_body body)
  | forLoop iterable body _ => exact .cons iterable (placed_of_body body)
  | loop count body _ => exact (placed_of_option count).append (placed_of_body body)
  | classDecl _ body _ => exact placed_of_body body
  | function _ params body _ => exact (placed_of_params params).append (placed_of_body body)
  | returns argument _ => exact placed_of_option argument
  | breaks _ => exact allPlaced_nil
  | continues _ => exact allPlaced_nil
  | hotkey body _ => exact placed_of_body body
  | directive _ _ => exact allPlaced_nil
  | expression e => exact .cons e allPlaced_nil

end Layers

theorem Derived.placed {level : Nat} {m : ParseM Expr} (h : Derived level m) :
    Ensures (Reading all) m (Placed all) := by
  intro s e t here run
  obtain ⟨ts, taken, derives⟩ := h s here.1 e t run
  have inside : ts <:+: s.ahead := ⟨[], t.ahead, taken.ahead.symm⟩
  exact derives.placed.mono (inside.trans here.2.isInfix)

end Parser

/-- The rules of a level find no expressions but those that are placed. -/
structure Level.Finds (all : List Token) (inner : Level) : Prop where
  ifChain : Ensures (AtToken (Reading all)) inner.ifChain fun c =>
    AllPlaced all (Stmt.rootsOfChain c)
  statement : Ensures (Reading all) inner.statement fun s => AllPlaced all s.roots

namespace Parser

variable {all : List Token}

theorem tower_below {levels : Nat} (h : (tower levels).Finds all) :
    (placedParts all).Below (alone (Reading all)) (tower levels) :=
  stable_reading.below (tower_returns levels) (tower_tallies levels)
    (expression_sound (tower_sound levels)).placed (tower_sound levels).disjunction.nested.placed
    (h.ifChain.nested fun _ here _ => here) (h.statement.nested fun _ here _ => here)

theorem tower_finds (all : List Token) (levels : Nat) : (tower levels).Finds all := by
  induction levels with
  | zero => exact ⟨ensures_refuse _, ensures_refuse _⟩
  | succ levels ih =>
      exact ⟨fun s c t here run => placed_of_chain
          (stable_reading.ensures_ifChain (tower_below ih) s c t here run),
        fun s stmt t here run => placed_of_layer
          (stable_reading.ensures_statement (tower_below ih) s stmt t here run)⟩

theorem rules_below_reading (all : List Token) :
    (placedParts all).Below (alone (Reading all)) rules :=
  tower_below (tower_finds all _)

theorem script_placed (all : List Token) :
    Ensures (Reading all) script fun body => AllPlaced all (Stmt.listedRoots body) := by
  intro s body t here run
  have below := rules_below_reading all
  have read := stable_reading.ensures_statementsUntil below (fun _ => id) s body t here run
  exact placed_of_body read

end Parser

/-- Every expression of a tree is derived from some of the tokens that the parser reads. -/
theorem parseTokens_placed (source : String) (tokens : List Token) :
    AllPlaced (State.ofTokens source tokens).ahead
    (parseTokens source tokens).program.expressions := by
  have closed : (State.ofTokens source tokens).Closed := (State.cursor_ofTokens source tokens).final
  obtain ⟨body, t, run, _⟩ := script_ok closed
  have roots := script_placed _ _ body t ⟨closed, List.suffix_rfl⟩ run
  rw [Program.expressions, (parseTokens_of_run run).1]
  refine allPlaced_flatMap.mpr fun e member => ?_
  obtain ⟨ts, inside, derives⟩ := roots e member
  exact derives.parts.mono inside

end ScriptLens
