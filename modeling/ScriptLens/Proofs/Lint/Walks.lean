import ScriptLens.Proofs.Lint.Codes
import ScriptLens.Proofs.Syntax.Addresses
import ScriptLens.Proofs.Syntax.Constructs
import Mathlib.Data.Finset.Card

/-!
The findings about statement lists, one for each place. A statement directly behind a return is
reported once for that return, and a function whose name occurs earlier in its list once for its
declaration, in every list of the tree and nowhere else.
-/

namespace ScriptLens

/-- A table for the rest of a list and what stands at its head make up a table for the list. -/
theorem Enumerates.cons {β : Type} {entries : List (Nat × β)} {At Later : Nat → β → Prop}
    (h : Enumerates entries Later) (first : Option β)
    (head : ∀ b, At 0 b ↔ first = some b) (tail : ∀ n b, At (n + 1) b ↔ Later n b) :
    Enumerates ((first.map ((0, ·))).toList ++ entries.map fun (n, b) => (n + 1, b)) At := by
  have later : (entries.map fun (n, b) => (n + 1, b)).map Prod.fst =
      (entries.map Prod.fst).map Nat.succ := by
    rw [List.map_map, List.map_map]
    rfl
  constructor
  · rw [List.map_append, later, List.nodup_append]
    refine ⟨by cases first <;> simp, h.distinct.map Nat.succ_injective, ?_⟩
    rintro n zero m succ rfl
    obtain ⟨_, _, rfl⟩ := List.mem_map.mp succ
    cases first <;> simp at zero
  · intro n b
    rw [List.mem_append, List.mem_map]
    cases n with
    | zero =>
        rw [head]
        cases first <;> simp [eq_comm]
    | succ n =>
        rw [tail, ← h.mem_iff]
        cases first <;> simp

namespace Lint

open Stmt (Address Leads lists addressed)

/-- A number in a list at which a return stands in front of a statement, and the finding about that
statement. -/
def UnreachableIn (body : List Stmt) (n : Nat) (d : Diagnostic) : Prop :=
  ∃ argument span next, body[n]? = some (.returns argument span) ∧ body[n + 1]? = some next ∧
    d = .lint .warning .unreachableCode "Unreachable code after return" next.span

/-- The name that a statement declares a function by, and its place. -/
def declared? : Stmt → Option (String × Span)
  | .function name nameSpan .. => some (name, nameSpan)
  | _ => none

/-- A number in a list at which a function is declared by a name that another function has earlier
in the list, up to the case of ASCII letters, and the finding about it. -/
def DuplicateIn (body : List Stmt) (n : Nat) (d : Diagnostic) : Prop :=
  ∃ name nameSpan, body[n]?.bind declared? = some (name, nameSpan) ∧ (∃ m < n, ∃ other span,
    body[m]?.bind declared? = some (other, span) ∧ Text.foldAscii other = Text.foldAscii name) ∧
    d = .lint .error .duplicateFunction ("Duplicate function declaration '" ++ name ++ "'") nameSpan

theorem declared?_eq_none {s : Stmt} (other : ∀ name nameSpan params body isStatic span,
      s = .function name nameSpan params body isStatic span → False) : declared? s = none := by
  cases s with
  | function => exact absurd rfl (other _ _ _ _ _ _)
  | _ => rfl

/-- The names that functions are declared by in a list, up to the case of ASCII letters. -/
def declaredIn (body : List Stmt) : List String :=
  (body.filterMap declared?).map fun (name, _) => Text.foldAscii name

/-- The findings are those that a relation gives to places of a tree, one for each. -/
def OneEach (body : List Stmt) (In : List Stmt → Nat → Diagnostic → Prop)
    (found : List Diagnostic) : Prop :=
  ∃ entries : List ((Address × Nat) × Diagnostic),
    Enumerates entries (fun place d => ∃ list, Leads body place.1 list ∧ In list place.2 d) ∧
    found.Perm (entries.map Prod.snd)

theorem unreachable_enumerates (body : List Stmt) : ∃ entries,
    Enumerates entries (UnreachableIn body) ∧ entries.map Prod.snd = unreachable body := by
  induction body with
  | nil =>
      refine ⟨[], ⟨List.nodup_nil, fun n d => iff_of_false List.not_mem_nil ?_⟩, rfl⟩
      rintro ⟨_, _, _, h, _⟩
      cases h
  | cons first rest ih =>
      cases rest with
      | nil =>
          refine ⟨[], ⟨List.nodup_nil, fun n d => iff_of_false List.not_mem_nil ?_⟩, rfl⟩
          rintro ⟨_, _, _, _, h, _⟩
          cases h
      | cons second rest =>
          obtain ⟨entries, later, same⟩ := ih
          let d :=
            Diagnostic.lint .warning .unreachableCode "Unreachable code after return" second.span
          refine ⟨_, later.cons (if isReturn first then some d else none) ?_ fun _ _ => Iff.rfl, ?_⟩
          · intro b
            cases first with
            | returns argument span =>
                constructor
                · rintro ⟨_, _, _, _, h, rfl⟩
                  cases h
                  rfl
                · rintro ⟨⟩
                  exact ⟨argument, span, second, rfl, rfl, rfl⟩
            | _ =>
                refine iff_of_false ?_ (by rintro ⟨⟩)
                rintro ⟨_, _, _, h, _⟩
                cases h
          · rw [unreachable, ← same, List.map_append, List.map_map]
            cases isReturn first <;> rfl

/-- The functions whose name is listed or occurs earlier. -/
def DuplicateBehind (seen : List String) (body : List Stmt) (n : Nat) (d : Diagnostic) : Prop :=
  ∃ name nameSpan, body[n]?.bind declared? = some (name, nameSpan) ∧
    ((∃ other ∈ seen, Text.foldAscii other = Text.foldAscii name) ∨ ∃ m < n, ∃ other span,
      body[m]?.bind declared? = some (other, span) ∧ Text.foldAscii other = Text.foldAscii name) ∧
    d = .lint .error .duplicateFunction ("Duplicate function declaration '" ++ name ++ "'") nameSpan

theorem listed_iff {table : List String} {name : String} : Text.listed table name = true ↔
    ∃ other ∈ table, Text.foldAscii other = Text.foldAscii name := by
  rw [Text.listed, List.any_eq_true]
  refine exists_congr fun other => and_congr_right fun _ => ?_
  rw [Text.sameName, beq_iff_eq, eq_comm]

/-- Behind a statement that declares no function the same names are known. -/
theorem duplicateBehind_other {seen : List String} {s : Stmt} {rest : List Stmt}
    (other : declared? s = none) (n : Nat) (d : Diagnostic) :
    DuplicateBehind seen (s :: rest) (n + 1) d ↔ DuplicateBehind seen rest n d := by
  unfold DuplicateBehind
  refine exists_congr fun name => exists_congr fun nameSpan => and_congr_right fun _ =>
    and_congr_left fun _ => or_congr_right ?_
  constructor
  · rintro ⟨m, less, found⟩
    cases m with
    | zero =>
        obtain ⟨_, _, h, _⟩ := found
        rw [List.getElem?_cons_zero, Option.bind_some, other] at h
        cases h
    | succ m => exact ⟨m, Nat.lt_of_succ_lt_succ less, found⟩
  · rintro ⟨m, less, found⟩
    exact ⟨m + 1, Nat.succ_lt_succ less, found⟩

/-- Behind a function its name is known. -/
theorem duplicateBehind_function {seen : List String} {s : Stmt} {rest : List Stmt} {name : String}
    {span : Span} (declares : declared? s = some (name, span)) (n : Nat) (d : Diagnostic) :
    DuplicateBehind seen (s :: rest) (n + 1) d ↔ DuplicateBehind (name :: seen) rest n d := by
  unfold DuplicateBehind
  refine exists_congr fun later => exists_congr fun laterSpan => and_congr_right fun _ =>
    and_congr_left fun _ => ?_
  constructor
  · rintro (listed | ⟨m, less, found⟩)
    · obtain ⟨other, member, same⟩ := listed
      exact .inl ⟨other, List.mem_cons_of_mem name member, same⟩
    · cases m with
      | zero =>
          obtain ⟨other, _, h, same⟩ := found
          rw [List.getElem?_cons_zero, Option.bind_some, declares] at h
          cases h
          exact .inl ⟨name, List.mem_cons_self, same⟩
      | succ m => exact .inr ⟨m, Nat.lt_of_succ_lt_succ less, found⟩
  · rintro (⟨other, member, same⟩ | ⟨m, less, found⟩)
    · rcases List.mem_cons.mp member with rfl | member
      · exact .inr ⟨0, Nat.succ_pos n, other, span, declares, same⟩
      · exact .inl ⟨other, member, same⟩
    · exact .inr ⟨m + 1, Nat.succ_lt_succ less, found⟩

theorem duplicates_enumerates_behind (seen : List String) (body : List Stmt) :
    ∃ entries, Enumerates entries (DuplicateBehind seen body) ∧
    entries.map Prod.snd = duplicates seen body := by
  fun_induction duplicates seen body with
  | case1 seen =>
      refine ⟨[], ⟨List.nodup_nil, fun n d => iff_of_false List.not_mem_nil ?_⟩, rfl⟩
      rintro ⟨_, _, h, _⟩
      cases h
  | case2 seen name nameSpan params inner isStatic span rest ih =>
      obtain ⟨entries, later, same⟩ := ih
      let d := Diagnostic.lint .error .duplicateFunction
        ("Duplicate function declaration '" ++ name ++ "'") nameSpan
      refine ⟨_, later.cons (if Text.listed seen name then some d else none) ?_
        (duplicateBehind_function rfl), ?_⟩
      · intro b
        by_cases known : Text.listed seen name = true
        · rw [if_pos known]
          constructor
          · rintro ⟨_, _, h, _, rfl⟩
            cases h
            rfl
          · rintro ⟨⟩
            exact ⟨name, nameSpan, rfl, .inl (listed_iff.mp known), rfl⟩
        · rw [if_neg known]
          refine iff_of_false ?_ (by rintro ⟨⟩)
          rintro ⟨_, _, h, earlier | ⟨m, less, _⟩, _⟩
          · cases h
            exact known (listed_iff.mpr earlier)
          · cases less
      · rw [← same, List.map_append, List.map_map]
        cases Text.listed seen name <;> rfl
  | case3 seen s rest other ih =>
      have none := declared?_eq_none other
      obtain ⟨entries, later, same⟩ := ih
      refine ⟨_, later.cons Option.none ?_ (duplicateBehind_other none), ?_⟩
      · intro b
        refine iff_of_false ?_ (by rintro ⟨⟩)
        rintro ⟨_, _, h, _⟩
        rw [List.getElem?_cons_zero, Option.bind_some, none] at h
        cases h
      · rw [← same]
        simp

theorem duplicates_enumerates (body : List Stmt) : ∃ entries,
    Enumerates entries (DuplicateIn body) ∧ entries.map Prod.snd = duplicates [] body := by
  obtain ⟨entries, each, same⟩ := duplicates_enumerates_behind [] body
  refine ⟨entries, ⟨each.distinct, fun n d => (each.mem_iff n d).trans ?_⟩, same⟩
  simp [DuplicateBehind, DuplicateIn]

/-- Every declaration is a duplicate or brings a new name. -/
theorem length_duplicates (seen : List String) (body : List Stmt) : (duplicates seen body).length +
    ((seen.map Text.foldAscii).toFinset ∪ (declaredIn body).toFinset).card =
      (declaredIn body).length + (seen.map Text.foldAscii).toFinset.card := by
  fun_induction duplicates seen body with
  | case1 seen => simp [declaredIn]
  | case2 seen name nameSpan params inner isStatic span rest ih =>
      have names : declaredIn (.function name nameSpan params inner isStatic span :: rest) =
          Text.foldAscii name :: declaredIn rest :=
        rfl
      have known : Text.listed seen name = true ↔
          Text.foldAscii name ∈ (seen.map Text.foldAscii).toFinset := by
        rw [listed_iff]
        simp
      rw [List.map_cons, List.toFinset_cons] at ih
      rw [names, List.length_append, List.length_cons, List.toFinset_cons, Finset.union_insert,
        ← Finset.insert_union]
      by_cases listed : Text.listed seen name = true
      · rw [Finset.insert_eq_self.mpr (known.mp listed)] at ih ⊢
        rw [if_pos listed, List.length_singleton]
        omega
      · rw [Finset.card_insert_of_notMem (mt known.mpr listed)] at ih
        rw [if_neg listed, List.length_nil]
        omega
  | case3 seen s rest other ih =>
      have none := declared?_eq_none other
      have names : declaredIn (s :: rest) = declaredIn rest := by
        rw [declaredIn, List.filterMap_cons, none]
        rfl
      rw [names]
      exact ih

/-- What is found list by list is found at each place of the tree. -/
theorem oneEach_lists {In : List Stmt → Nat → Diagnostic → Prop}
    {found : List Stmt → List Diagnostic}
    (each : ∀ list, ∃ entries, Enumerates entries (In list) ∧ entries.map Prod.snd = found list)
    (body : List Stmt) : OneEach body In ((lists body).flatMap found) := by
  choose table enumerates same using each
  have whole := (Stmt.addressed_enumerates body).nested (fun _ list _ => enumerates list)
    (show Function.Injective2 Prod.mk from fun _ _ _ _ => Prod.mk.inj)
  refine ⟨_, ⟨whole.distinct, ?_⟩, List.Perm.of_eq ?_⟩
  · rintro ⟨address, n⟩ d
    rw [whole.mem_iff]
    constructor
    · rintro ⟨_, list, _, ⟨⟩, leads, inside⟩
      exact ⟨list, leads, inside⟩
    · rintro ⟨list, leads, inside⟩
      exact ⟨address, list, n, rfl, leads, inside⟩
  · rw [← Stmt.addressed_lists, List.flatMap_map, List.map_flatMap]
    refine List.flatMap_congr ?_
    rintro ⟨address, list⟩ _
    rw [List.map_map, ← same]
    rfl

theorem OneEach.inOrder {body : List Stmt} {In : List Stmt → Nat → Diagnostic → Prop}
    {found : List Diagnostic}
    (h : OneEach body In found) : OneEach body In (Diagnostic.inOrder found) := by
  obtain ⟨entries, enumerates, same⟩ := h
  exact ⟨entries, enumerates, (Sorting.sort_perm _ found).trans same⟩

section Trees

variable (tokens : List Token) (program : Program)

/-- Findings about lists, by their code. -/
theorem tree_lists {c : Code} (member : c ∈ [Code.unreachableCode, Code.duplicateFunction]) :
    (tree tokens program).filter (·.code = c) = Diagnostic.inOrder
      ((lists program.body).flatMap fun list => (listFindings list).filter (·.code = c)) := by
  have others : c ∉ [Code.undefinedFunction] ∧ c ∉ [Code.readOnlyAssignment] := by
    revert c
    decide
  rw [tree, Diagnostic.filter_inOrder, List.filter_append, List.filter_append,
    (undefinedCalls_coded program).none others.1, (readOnlyAssignments_coded tokens).none others.2,
    List.nil_append, List.append_nil, List.filter_flatMap]

theorem tree_unreachable : OneEach program.body UnreachableIn
    ((tree tokens program).filter (·.code = .unreachableCode)) := by
  rw [tree_lists tokens program List.mem_cons_self]
  refine (oneEach_lists (fun list => ?_) program.body).inOrder
  rw [listFindings, List.filter_append, (unreachable_coded list).all,
    (duplicates_coded [] list).none (by decide), List.append_nil]
  exact unreachable_enumerates list

theorem tree_duplicates : OneEach program.body DuplicateIn
    ((tree tokens program).filter (·.code = .duplicateFunction)) := by
  rw [tree_lists tokens program (List.mem_cons_of_mem _ List.mem_cons_self)]
  refine (oneEach_lists (fun list => ?_) program.body).inOrder
  rw [listFindings, List.filter_append, (unreachable_coded list).none (by decide),
    (duplicates_coded [] list).all, List.nil_append]
  exact duplicates_enumerates list

end Trees

end Lint

open Stmt (Leads lists constructs)

/-- The walks over a tree visit every statement list once. The measures are the sums over the
syntax; of the findings about lists there is one for each statement directly behind a return and one
for each function whose name occurs earlier in its list, so that a list has as many of these as it
declares functions beyond its distinct names. -/
theorem walks_once (source : String) (tokens : List Token) (program : Program) :
    (∃ entries, Enumerates entries (Leads program.body) ∧
      entries.map Prod.snd = lists program.body) ∧
    (let measures := Statistics.collect source tokens program
     let parts := constructs program.body
     measures.functions = parts.count .function ∧ measures.classes = parts.count .classDecl ∧
     measures.complexity = 1 + parts.count .function + parts.count .classDecl + parts.count .ifs +
       parts.count .elseIf +
       2 * parts.count .loop) ∧
    Lint.OneEach program.body Lint.UnreachableIn
      ((Lint.tree tokens program).filter (·.code = .unreachableCode)) ∧
    Lint.OneEach program.body Lint.DuplicateIn
      ((Lint.tree tokens program).filter (·.code = .duplicateFunction)) ∧
    ∀ address list, Leads program.body address list → ∃ entries,
      Enumerates entries (Lint.DuplicateIn list) ∧
      entries.length + (Lint.declaredIn list).toFinset.card = (Lint.declaredIn list).length := by
  refine ⟨⟨_, Stmt.addressed_enumerates _, Stmt.addressed_lists _⟩, ?_, Lint.tree_unreachable tokens
    program, Lint.tree_duplicates tokens program, fun address list _ => ?_⟩
  · obtain ⟨functions, classes, complexity⟩ := Statistics.collect_constructs source tokens program
    refine ⟨functions, classes, ?_⟩
    rw [complexity, Statistics.burden]
    omega
  · obtain ⟨entries, enumerates, same⟩ := Lint.duplicates_enumerates list
    have count := Lint.length_duplicates [] list
    rw [← same, List.length_map] at count
    simp only [List.map_nil, List.toFinset_nil, Finset.empty_union, Finset.card_empty] at count
    exact ⟨entries, enumerates, count⟩

/-- A chain with code behind a return in its first body and two functions of one name in its
last. -/
theorem walks_once_chain :
    let twice : List Stmt :=
      [.function "G" default [] [] false default, .function "g" default [] [] false default]
    let rest : IfChain := .mk default [] (.otherwise twice) default
    let program : Program :=
      ⟨[.ifs (.mk default [.returns none default, .breaks default] (.elseIf rest) default)],
      default⟩
    (Statistics.collect "" [] program).complexity = 5 ∧ (Lint.tree [] program).length = 2 ∧
    Leads program.body [(0, 2)] twice ∧ ∃ entries, Enumerates entries (Lint.DuplicateIn twice) ∧
        entries.length + 1 = 2 := by
  intro twice rest program
  have leads : Leads program.body [(0, 2)] twice := .inside rfl (.ifs (.elseIf .otherwise)) .here
  exact ⟨by decide +kernel, by decide +kernel, leads, (walks_once "" [] program).2.2.2.2 _ _ leads⟩

end ScriptLens
