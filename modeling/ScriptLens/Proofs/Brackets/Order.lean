import ScriptLens.Diagnostic
import Mathlib.Order.Defs.LinearOrder

/-!
Sorting is stable: it puts items in order and keeps the order of any that it might have left alone.
So it makes no difference whether items are chosen before they are sorted or after.
-/

namespace ScriptLens.Sorting

variable {α β : Type} {precedes : α → α → Bool} {a : α} {items : List α}

/-- What may precede all others goes to the front. -/
theorem insert_front (h : ∀ b ∈ items.head?, precedes a b = true) :
    insert precedes a items = a :: items := by
  cases items with
  | nil => rfl
  | cons b rest => rw [insert, if_pos (h b rfl)]

/-- What is in order already stays as it is. -/
theorem sort_eq_self (h : items.Pairwise (precedes · ·)) : sort precedes items = items := by
  induction items with
  | nil => rfl
  | cons a rest ih =>
      obtain ⟨first, later⟩ := List.pairwise_cons.mp h
      rw [sort, ih later]
      exact insert_front fun b member => first b (List.mem_of_head? member)

section Ordered

variable (total : ∀ a b, precedes a b = true ∨ precedes b a = true)
  (trans : ∀ a b c, precedes a b = true → precedes b c = true → precedes a c = true)

include total trans in
theorem insert_ordered (h : items.Pairwise (precedes · ·)) :
    (insert precedes a items).Pairwise (precedes · ·) := by
  induction items with
  | nil => exact List.pairwise_singleton _ _
  | cons b rest ih =>
      obtain ⟨first, later⟩ := List.pairwise_cons.mp h
      rw [insert]
      split
      · next before =>
          refine .cons ?_ h
          intro c member
          rcases List.mem_cons.mp member with rfl | behind
          · exact before
          · exact trans a b c before (first c behind)
      · next behind =>
          refine .cons ?_ (ih later)
          intro c member
          rcases List.mem_cons.mp ((insert_perm precedes a rest).mem_iff.mp member) with rfl | old
          · exact (total c b).resolve_left behind
          · exact first c old

include total trans in
theorem sort_ordered (items : List α) : (sort precedes items).Pairwise (precedes · ·) := by
  induction items with
  | nil => exact .nil
  | cons a rest ih => exact insert_ordered total trans ih

include trans in
theorem filter_insert (chosen : α → Bool) (h : items.Pairwise (precedes · ·)) :
    (insert precedes a items).filter chosen =
      if chosen a then insert precedes a (items.filter chosen) else items.filter chosen := by
  induction items with
  | nil =>
      rw [insert, List.filter_cons]
      rfl
  | cons b rest ih =>
      obtain ⟨first, later⟩ := List.pairwise_cons.mp h
      by_cases before : precedes a b = true
      · rw [insert, if_pos before, List.filter_cons]
        have front :
            insert precedes a ((b :: rest).filter chosen) = a :: (b :: rest).filter chosen := by
          apply insert_front
          intro c member
          rcases List.mem_cons.mp
            (List.mem_filter.mp (List.mem_of_head? member)).1 with rfl | behind
          · exact before
          · exact trans a b c before (first c behind)
        rw [front]
      · rw [insert, if_neg before, List.filter_cons, ih later, List.filter_cons]
        cases chosen a <;> cases chosen b <;> simp [insert, before]

include total trans in
/-- Items may be chosen before they are sorted. -/
theorem filter_sort (chosen : α → Bool) (items : List α) :
    (sort precedes items).filter chosen = sort precedes (items.filter chosen) := by
  induction items with
  | nil => rfl
  | cons a rest ih =>
      rw [sort, filter_insert trans chosen (sort_ordered total trans rest), ih, List.filter_cons]
      split <;> rfl

end Ordered

/-- Items may be chosen before they are sorted by a number. -/
theorem filter_sort_by (key : α → Nat) (chosen : α → Bool) (items : List α) :
    (sort (fun a b => decide (key a ≤ key b)) items).filter chosen =
      sort (fun a b => decide (key a ≤ key b)) (items.filter chosen) := by
  have total (a b : α) : decide (key a ≤ key b) = true ∨ decide (key b ≤ key a) = true := by
    simpa using Nat.le_total _ _
  have trans (a b c : α) (ab : decide (key a ≤ key b) = true) (bc : decide (key b ≤ key c) = true) :
      decide (key a ≤ key c) = true := by
    simpa using Nat.le_trans (of_decide_eq_true ab) (of_decide_eq_true bc)
  exact filter_sort total trans chosen items

section Map

variable (f : α → β) (before : β → β → Bool)

theorem map_insert (a : α) (items : List α) :
    (insert (fun a b => before (f a) (f b)) a items).map f = insert before (f a) (items.map f) := by
  induction items with
  | nil => rfl
  | cons b rest ih =>
      rw [insert, List.map_cons, insert]
      split
      · rfl
      · rw [List.map_cons, ih]

/-- Sorting looks at nothing but what the order depends on. -/
theorem map_sort (items : List α) :
    (sort (fun a b => before (f a) (f b)) items).map f = sort before (items.map f) := by
  induction items with
  | nil => rfl
  | cons a rest ih => rw [sort, map_insert, ih, List.map_cons, sort]

end Map

end ScriptLens.Sorting

namespace ScriptLens.Diagnostic

/-- Findings may be chosen before they are put in order. -/
theorem filter_inOrder (chosen : Diagnostic → Bool) (found : List Diagnostic) :
    (inOrder found).filter chosen = inOrder (found.filter chosen) :=
  Sorting.filter_sort_by (fun d : Diagnostic => d.range.start.offset) chosen found

/-- The ranges of chosen findings, in the order of their starts. -/
theorem ranges_inOrder (chosen : Diagnostic → Bool) (found : List Diagnostic) :
    ((inOrder found).filter chosen).map (·.range) = Sorting.sort (fun a b : Span =>
        decide (a.start.offset ≤ b.start.offset)) ((found.filter chosen).map (·.range)) := by
  rw [filter_inOrder]
  exact Sorting.map_sort
    (fun d : Diagnostic => d.range) (fun a b => decide (a.start.offset ≤ b.start.offset)) _

/-- Putting in order only reorders. -/
theorem mem_inOrder {d : Diagnostic} {found : List Diagnostic} : d ∈ inOrder found ↔ d ∈ found :=
  (Sorting.sort_perm _ found).mem_iff

end ScriptLens.Diagnostic
