import ScriptLens.Proofs.Lint.Places
import Mathlib.Data.List.Nodup
import Mathlib.Data.List.ProdSigma

/-!
Addresses in a tree of statements. A list inside another has an address, which names at each step a
statement of a list and a body of that statement. Main statement: the walk over all lists of a tree
meets the list at each address once, and no others.
-/

namespace ScriptLens

/-- A table has one entry for each pair of a relation between keys and values, a key has one value,
and there are no other entries. -/
structure Enumerates {α β : Type} (entries : List (α × β)) (At : α → β → Prop) : Prop where
  distinct : (entries.map Prod.fst).Nodup
  mem_iff : ∀ a b, (a, b) ∈ entries ↔ At a b

namespace Enumerates

variable {α β γ δ κ : Type} {entries : List (α × β)} {At : α → β → Prop}

/-- Tables for the values of a table make up one table, with keys joined from theirs. -/
theorem nested (h : Enumerates entries At) {inner : β → List (γ × δ)} {Inside : β → γ → δ → Prop}
    (each : ∀ a b, At a b → Enumerates (inner b) (Inside b))
    {join : α → γ → κ} (apart : Function.Injective2 join) :
    Enumerates (entries.flatMap fun (a, b) => (inner b).map fun (c, d) => (join a c, d))
      fun key d => ∃ a b c, key = join a c ∧ At a b ∧ Inside b c d := by
  constructor
  · rw [List.map_flatMap, List.nodup_flatMap]
    constructor
    · rintro ⟨a, b⟩ member
      have keys := (each a b ((h.mem_iff a b).mp member)).distinct.map (apart.right a)
      rw [List.map_map] at keys ⊢
      exact keys
    · refine (List.pairwise_map.mp h.distinct).imp ?_
      rintro ⟨a, b⟩ ⟨a', b'⟩ other key first second
      simp only [List.map_map, List.mem_map] at first second
      obtain ⟨_, _, rfl⟩ := first
      obtain ⟨_, _, same⟩ := second
      exact other (apart same).1.symm
  · intro key d
    simp only [List.mem_flatMap, List.mem_map, Prod.mk.injEq, Prod.exists]
    constructor
    · rintro ⟨a, b, here, c, d', inside, rfl, rfl⟩
      have at' := (h.mem_iff a b).mp here
      exact ⟨a, b, c, rfl, at', ((each a b at').mem_iff c d').mp inside⟩
    · rintro ⟨a, b, c, rfl, here, inside⟩
      exact ⟨a, b, (h.mem_iff a b).mpr here, c, d,
        ((each a b here).mem_iff c d).mpr inside, rfl, rfl⟩

end Enumerates

/-- The items of a list behind their numbers. -/
def numbered {α : Type} (items : List α) : List (Nat × α) := items.zipIdx.map Prod.swap

section Numbered

variable {α β : Type}

theorem numbered_enumerates (items : List α) : Enumerates (numbered items) fun n a =>
    items[n]? = some a := by
  constructor
  · have numbers : (numbered items).map Prod.fst = items.zipIdx.map Prod.snd := by
      rw [numbered, List.map_map]
      rfl
    rw [numbers, List.zipIdx_map_snd]
    exact List.nodup_range'
  · intro n a
    rw [numbered, List.mem_map_swap]
    exact List.mem_zipIdx_iff_getElem?

theorem numbered_flatMap (items : List α) (f : α → List β) :
    ((numbered items).flatMap fun (_, a) => f a) = items.flatMap f := by
  have back : (numbered items).map Prod.snd = items := by
    rw [numbered, List.map_map]
    exact List.zipIdx_map_fst 0 items
  conv_rhs => rw [← back, List.flatMap_map]

end Numbered

namespace IfChain

/-- The bodies of a chain by number: those of its links in turn, then that of the last `else`. -/
inductive HasBody : IfChain → Nat → List Stmt → Prop
  | link {test body rest span} : HasBody (.mk test body rest span) 0 body
  | elseIf {test consequent next span n body} : HasBody next n body →
      HasBody (.mk test consequent (.elseIf next) span) (n + 1) body
  | otherwise {test consequent body span} :
      HasBody (.mk test consequent (.otherwise body) span) 1 body

theorem hasBody_iff : ∀ (chain : IfChain) {n : Nat} {body : List Stmt}, chain.HasBody n body ↔
      chain.bodies[n]? = some body
  | .mk test consequent .absent span, n, body => by
      rw [bodies, alternateBodies]
      constructor
      · rintro ⟨⟩
        rfl
      · intro h
        cases n with
        | zero =>
            cases h
            exact .link
        | succ n => cases h
  | .mk test consequent (.elseIf next) span, n, body => by
      rw [bodies, alternateBodies]
      constructor
      · rintro (_ | inner | _)
        · rfl
        · exact (hasBody_iff next).mp inner
      · intro h
        cases n with
        | zero =>
            cases h
            exact .link
        | succ n => exact .elseIf ((hasBody_iff next).mpr h)
  | .mk test consequent (.otherwise last) span, n, body => by
      rw [bodies, alternateBodies]
      constructor
      · rintro (_ | _ | _) <;> rfl
      · intro h
        match n, h with
        | 0, h =>
            cases h
            exact .link
        | 1, h =>
            cases h
            exact .otherwise

theorem HasBody.smaller {chain : IfChain} {n : Nat} {body : List Stmt} (h : chain.HasBody n body) :
    sizeOf body < sizeOf chain := by
  induction h with
  | link =>
      simp only [mk.sizeOf_spec]
      omega
  | elseIf _ ih =>
      simp only [mk.sizeOf_spec, Alternate.elseIf.sizeOf_spec]
      omega
  | otherwise =>
      simp only [mk.sizeOf_spec, Alternate.otherwise.sizeOf_spec]
      omega

end IfChain

namespace Stmt

/-- The statement lists directly inside a statement by number. -/
inductive HasBody : Stmt → Nat → List Stmt → Prop
  | ifs {chain n body} : chain.HasBody n body → HasBody (.ifs chain) n body
  | whileLoop {test body span} : HasBody (.whileLoop test body span) 0 body
  | forLoop {names iterable body span} : HasBody (.forLoop names iterable body span) 0 body
  | loop {count body span} : HasBody (.loop count body span) 0 body
  | classDecl {name nameSpan base body span} :
      HasBody (.classDecl name nameSpan base body span) 0 body
  | function {name nameSpan params body isStatic span} :
      HasBody (.function name nameSpan params body isStatic span) 0 body
  | hotkey {trigger body span} : HasBody (.hotkey trigger body span) 0 body

/-- The child bodies of a statement are all lists directly inside it, in order. -/
theorem hasBody_iff (s : Stmt) {n : Nat} {body : List Stmt} :
    s.HasBody n body ↔ s.childBodies[n]? = some body := by
  constructor
  · rintro (chain | _ | _ | _ | _ | _ | _)
    · exact (IfChain.hasBody_iff _).mp chain
    all_goals rfl
  · intro h
    cases s with
    | ifs chain => exact .ifs ((IfChain.hasBody_iff chain).mpr h)
    | returns | breaks | continues | directive | expression => cases h
    | whileLoop | forLoop | loop | classDecl | function | hotkey =>
        obtain ⟨rfl, rfl⟩ :
          n = 0 ∧ _ = body := by simpa [childBodies, List.getElem?_singleton] using h
        constructor

theorem HasBody.smaller {s : Stmt} {n : Nat} {body : List Stmt} (h : s.HasBody n body) :
    sizeOf body < sizeOf s := by
  cases h with
  | ifs chain =>
      have := chain.smaller
      simp only [ifs.sizeOf_spec]
      omega
  | whileLoop | forLoop | loop | classDecl | function | hotkey => decreasing_tactic

/-- A way into a tree: at each step the number of a statement in its list and the number of a body
in it. -/
abbrev Address := List (Nat × Nat)

/-- An address leads from a list to that list or to one inside it. -/
inductive Leads : List Stmt → Address → List Stmt → Prop
  | here {body} : Leads body [] body
  | inside {body i j s inner address list} : body[i]? = some s → s.HasBody j inner →
      Leads inner address list → Leads body ((i, j) :: address) list

/-- The lists directly inside the statements of a list, each behind the step to it. -/
def steps (body : List Stmt) : List ((Nat × Nat) × List Stmt) :=
  (numbered body).flatMap fun (i, s) => (numbered s.childBodies).map fun (j, inner) =>
    ((i, j), inner)

variable {body : List Stmt}

theorem steps_enumerates (body : List Stmt) : Enumerates (steps body)
    fun step inner => ∃ i s j, step = (i, j) ∧ body[i]? = some s ∧ s.childBodies[j]? = some inner :=
  (numbered_enumerates body).nested (fun _ s _ => numbered_enumerates s.childBodies)
    fun _ _ _ _ => Prod.mk.inj

theorem smaller_of_steps {step : (Nat × Nat) × List Stmt} (member : step ∈ steps body) :
    sizeOf step.2 < sizeOf body := by
  obtain ⟨i, s, j, _, place, inside⟩ := ((steps_enumerates body).mem_iff _ _).mp member
  exact Nat.lt_trans (s.hasBody_iff.mpr inside).smaller
    (List.sizeOf_lt_of_mem (List.mem_of_getElem? place))

/-- Induction over a tree by its lists. -/
theorem steps_induction {P : List Stmt → Prop}
    (each : ∀ body, (∀ step ∈ steps body, P step.2) → P body) (body : List Stmt) : P body := by
  induction size : sizeOf body using Nat.strongRecOn generalizing body with
  | _ n ih =>
      subst size
      exact each body fun step member => ih _ (smaller_of_steps member) step.2 rfl

/-- All lists of a tree behind their addresses, a list before those inside it. -/
def addressed (body : List Stmt) : List (Address × List Stmt) :=
  ([], body) :: (steps body).attach.flatMap fun step =>
      (addressed step.1.2).map fun (address, list) =>
    (step.1.1 :: address, list)
termination_by sizeOf body
decreasing_by exact smaller_of_steps step.2

theorem addressed_eq (body : List Stmt) : addressed body = ([], body) :: (steps body).flatMap
    fun (step, inner) => (addressed inner).map fun (address, list) => (step :: address, list) := by
  rw [addressed, List.flatMap_def, List.flatMap_def]
  congr 2
  exact List.attach_map_val
      (f := fun step : (Nat × Nat) × List Stmt => (addressed step.2).map fun (address, list) =>
    (step.1 :: address, list))

/-- The lists of a tree are those that addresses lead to. -/
theorem addressed_enumerates (body : List Stmt) : Enumerates (addressed body) (Leads body) := by
  induction body using steps_induction with
  | each body ih =>
      have below := (steps_enumerates body).nested (fun step inner among =>
        ih (step, inner) (((steps_enumerates body).mem_iff step inner).mpr among))
        fun _ _ _ _ => List.cons.inj
      rw [addressed_eq]
      constructor
      · rw [List.map_cons, List.nodup_cons]
        refine ⟨?_, below.distinct⟩
        simp
      · intro address list
        rw [List.mem_cons, below.mem_iff]
        constructor
        · rintro (here | ⟨_, inner, address, rfl, ⟨i, s, j, rfl, place, inside⟩, later⟩)
          · cases here
            exact .here
          · exact .inside place (s.hasBody_iff.mpr inside) later
        · rintro (_ | ⟨place, inside, later⟩)
          · exact .inl rfl
          · exact .inr ⟨_, _, _, rfl, ⟨_, _, _, rfl, place, (hasBody_iff _).mp inside⟩, later⟩

theorem listsOfChain_eq : ∀ chain : IfChain, listsOfChain chain = chain.bodies.flatMap lists
  | .mk test consequent .absent span => by
      rw [listsOfChain, listsOfAlternate, IfChain.bodies, IfChain.alternateBodies,
        List.flatMap_singleton, List.append_nil]
      rfl
  | .mk test consequent (.elseIf next) span => by
      rw [listsOfChain, listsOfAlternate, IfChain.bodies, IfChain.alternateBodies,
        List.flatMap_cons, listsOfChain_eq next]
      rfl
  | .mk test consequent (.otherwise body) span => by
      rw [listsOfChain, listsOfAlternate, IfChain.bodies, IfChain.alternateBodies,
        List.flatMap_cons, List.flatMap_singleton]
      rfl

/-- The lists inside a statement are its child bodies and the lists inside these. -/
theorem listsOf_childBodies (s : Stmt) : listsOf s = s.childBodies.flatMap lists := by
  cases s with
  | ifs chain => exact listsOfChain_eq chain
  | returns | breaks | continues | directive | expression => rfl
  | whileLoop | forLoop | loop | classDecl | function | hotkey =>
      exact (List.flatMap_singleton ..).symm

theorem lists_steps (body : List Stmt) : lists body = body :: (steps body).flatMap fun (_, inner) =>
    lists inner := by
  rw [lists, listsInside_eq, steps, List.flatMap_assoc, ← numbered_flatMap body]
  congr 2
  funext ⟨i, s⟩
  rw [List.flatMap_map]
  exact (listsOf_childBodies s).trans (numbered_flatMap s.childBodies lists).symm

/-- The walk over a tree takes its lists in the order of their addresses. -/
theorem addressed_lists (body : List Stmt) : (addressed body).map Prod.snd = lists body := by
  induction body using steps_induction with
  | each body ih =>
      rw [addressed_eq, lists_steps, List.map_cons, List.map_flatMap]
      congr 1
      refine List.flatMap_congr ?_
      rintro ⟨step, inner⟩ member
      refine Eq.trans ?_ (ih _ member)
      rw [List.map_map]
      rfl

end Stmt

end ScriptLens
