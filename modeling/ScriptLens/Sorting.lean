/-!
Stable sorting by insertion. Main statement: sorting only reorders.
-/

namespace ScriptLens.Sorting

/-- Puts an item before the first one that it may precede. -/
def insert (precedes : α → α → Bool) (a : α) : List α → List α
  | [] => [a]
  | b :: rest => if precedes a b then a :: b :: rest else b :: insert precedes a rest

/-- The items in order; of two that may precede each other the earlier one stays first. -/
def sort (precedes : α → α → Bool) : List α → List α
  | [] => []
  | a :: rest => insert precedes a (sort precedes rest)

theorem insert_perm (precedes : α → α → Bool) (a : α) (items : List α) :
    (insert precedes a items).Perm (a :: items) := by
  induction items with
  | nil => exact List.Perm.refl [a]
  | cons b rest ih =>
    unfold insert
    split
    · exact List.Perm.refl (a :: b :: rest)
    · exact (ih.cons b).trans (List.Perm.swap a b rest)

theorem sort_perm (precedes : α → α → Bool) (items : List α) :
    (sort precedes items).Perm items := by
  induction items with
  | nil => exact List.Perm.refl []
  | cons a rest ih => exact (insert_perm precedes a (sort precedes rest)).trans (ih.cons a)

end ScriptLens.Sorting
