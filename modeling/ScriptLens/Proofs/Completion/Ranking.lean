import ScriptLens.Completion
import ScriptLens.Proofs.Brackets.Order
import ScriptLens.Proofs.Text.Cut
import Mathlib.Data.List.TakeWhile

/-!
What is offered at a cursor. The index is searched for the started word in names and descriptions,
and the finds are then chosen by how they start. Main statement: the search makes no difference, and
the candidates are all that the cursor's line asks for and that start with the word, in a stable
order.
-/

namespace ScriptLens

namespace Sorting

variable {α : Type} {precedes : α → α → Bool} {a : α} {front items : List α}

/-- What may precede none of the first items goes behind them. -/
theorem insert_behind (h : ∀ b ∈ front, precedes a b = false) :
    insert precedes a (front ++ items) = front ++ insert precedes a items := by
  induction front with
  | nil => rfl
  | cons b front ih =>
      have behind : ¬precedes a b = true := by simp [h b List.mem_cons_self]
      rw [List.cons_append, insert, if_neg behind,
        ih fun c member => h c (List.mem_cons_of_mem b member)]
      rfl

/-- Sorting by insertion is the stable sort. -/
theorem sort_eq_mergeSort (total : ∀ a b, precedes a b = true ∨ precedes b a = true)
    (trans : ∀ a b c, precedes a b = true → precedes b c = true → precedes a c = true)
    (items : List α) : sort precedes items = items.mergeSort precedes := by
  have total' (a b : α) : (precedes a b || precedes b a) = true :=
    Bool.or_eq_true_iff.mpr (total a b)
  induction items with
  | nil => simp [sort]
  | cons a rest ih =>
      -- the stable sort, too, puts the item behind those that it may not precede and before all
      -- others
      obtain ⟨front, back, whole, others, apart⟩ := List.mergeSort_cons trans total' a rest
      have ordered := List.pairwise_mergeSort trans total' (a :: rest)
      rw [whole] at ordered
      have before : ∀ b ∈ back, precedes a b = true :=
        (List.pairwise_cons.mp (List.pairwise_append.mp ordered).2.1).1
      have here : insert precedes a back = a :: back :=
        insert_front fun b member => before b (List.mem_of_head? member)
      rw [sort, ih, others,
        insert_behind (fun b member => by simpa using apart b member), here, whole]

end Sorting

namespace Text

/-- What stands before a text decides nothing about its lower case where no letter is seen in it. -/
theorem lowerFrom_caseless {behind : List Char} (caseless : casedNext behind = false)
    (before text : List Char) : lowerFrom (before ++ behind) text = lowerFrom before text := by
  have unseen : ∀ before, casedNext (before ++ behind) = casedNext before := by
    intro before
    rw [casedNext, casedNext, List.dropWhile_append]
    cases before.dropWhile fun c => caseIgnorable.has c.toNat with
    | nil => exact caseless
    | cons c rest => rfl
  induction text generalizing before with
  | nil => rfl
  | cons c text ih => rw [lowerFrom, lowerFrom, unseen before, ← ih (c :: before), List.cons_append]

theorem lower_hash (text : List Char) : lower ('#' :: text) = '#' :: lower text := by
  have caseless : casedNext ['#'] = false := by decide
  have same : lowerChar '#' = ['#'] := by decide
  have behind := lowerFrom_caseless caseless [] text
  rw [List.nil_append] at behind
  rw [lower, lowerFrom, if_neg (by decide), same, behind]
  rfl

/-- The lower case of a name without the marks before it ends the lower case of the name. -/
theorem lower_dropWhile_hash (name : List Char) :
    lower (name.dropWhile (· = '#')) <:+ lower name := by
  induction name with
  | nil => exact List.suffix_refl _
  | cons c name ih =>
      by_cases mark : c = '#'
      · rw [mark, List.dropWhile_cons_of_pos (by decide), lower_hash]
        exact ih.trans (List.suffix_cons _ _)
      · refine ⟨[], ?_⟩
        rw [List.nil_append, List.dropWhile_cons_of_neg (by simpa using mark)]

end Text

namespace Completion

/-- All that a cursor's context offers, whatever word is started there. -/
def offered (docs : DocIndex) : CompletionContext → List CompletionItem
  | .directive => docs.directives.map directiveItem
  | .hotkey => hotkeyKeys.map hotkeyItem
  | .member receiver =>
      ((docs.classes.find? fun c => Text.sameName c.name receiver).map memberItems).getD []
  | .functionCall => docs.functions.map functionItem
  | .bareWord => docs.vars.map variableItem
  | .anything =>
    docs.functions.map functionItem ++ docs.vars.map variableItem ++ docs.classes.map classItem ++
      keywords.map keywordItem

section Search

variable {word : List Char}

/-- An entry whose name starts with the word is found by the search for the word. -/
theorem isHit_of_startsWith {i : CompletionItem} (description : String)
    (h : startsWith word i = true) :
    DocIndex.isHit (String.ofList word) i.label description = true := by
  have inside : Text.lower word <:+: Text.lower i.label.toList :=
    (List.isPrefixOf_iff_prefix.mp h).isInfix.trans (Text.lower_dropWhile_hash _).isInfix
  simp [DocIndex.isHit, Text.contains_of_infix inside]

/-- Searching before choosing by the start loses nothing. -/
theorem filter_searched {α : Type} {entry : α → CompletionItem} (description : α → String)
    (entries : List α) : ((entries.filter fun a =>
      DocIndex.isHit (String.ofList word) (entry a).label (description a)).map entry).filter
      (startsWith word) = (entries.map entry).filter (startsWith word) := by
  rw [List.filter_map, List.filter_map, List.filter_filter]
  refine congrArg (List.map entry) (List.filter_congr fun a _ => ?_)
  by_cases starts : startsWith word (entry a) = true
  · simp [starts, isHit_of_startsWith (description a) starts]
  · simp [starts]

/-- Of what the search finds and of all that is offered, the same entries start with the word. -/
theorem candidates_offered (docs : DocIndex) (context : CompletionContext) :
    (candidates docs (String.ofList word) context).filter (startsWith word) =
      (offered docs context).filter (startsWith word) := by
  have functions : ((docs.searchFunctions (String.ofList word)).map functionItem).filter
      (startsWith word) = (docs.functions.map functionItem).filter (startsWith word) :=
      filter_searched FunctionDoc.description docs.functions
  have vars : ((docs.searchVariables (String.ofList word)).map variableItem).filter
      (startsWith word) = (docs.vars.map variableItem).filter (startsWith word) :=
      filter_searched VariableDoc.description docs.vars
  have classes : ((docs.searchClasses (String.ofList word)).map classItem).filter
      (startsWith word) = (docs.classes.map classItem).filter (startsWith word) :=
      filter_searched ClassDoc.description docs.classes
  cases context with
  | directive => exact filter_searched DirectiveDoc.description docs.directives
  | hotkey => rfl
  | member receiver => rfl
  | functionCall => exact functions
  | bareWord => exact vars
  | anything =>
      rw [candidates, offered]
      simp only [List.filter_append, functions, vars, classes]

end Search

theorem precedes_iff {a b : CompletionItem} : precedes a b = true ↔
    a.sortText < b.sortText ∨ a.sortText = b.sortText ∧ a.label ≤ b.label := by
  simp [precedes]

theorem precedes_total (a b : CompletionItem) : precedes a b = true ∨ precedes b a = true := by
  rw [precedes_iff, precedes_iff]
  by_cases above : a.sortText < b.sortText
  · exact .inl (.inl above)
  · by_cases below : b.sortText < a.sortText
    · exact .inr (.inl below)
    · have same := String.le_antisymm (String.not_lt.mp below) (String.not_lt.mp above)
      rcases String.le_total a.label b.label with le | le
      · exact .inl (.inr ⟨same, le⟩)
      · exact .inr (.inr ⟨same.symm, le⟩)

theorem precedes_trans (a b c : CompletionItem) (ab : precedes a b = true)
    (bc : precedes b c = true) : precedes a c = true := by
  rw [precedes_iff] at ab bc ⊢
  rcases ab with first | ⟨same, le⟩
  · rcases bc with second | ⟨same', _⟩
    · exact .inl (String.lt_trans first second)
    · exact .inl (same' ▸ first)
  · rcases bc with second | ⟨same', le'⟩
    · exact .inl (same ▸ second)
    · exact .inr ⟨same.trans same', String.le_trans le le'⟩

/-- The started word is all that stands behind the last character that belongs to no word. -/
theorem trailingWord_maximal (before : List Char) : ∃ front, before = front ++ trailingWord before ∧
    (∀ c ∈ trailingWord before, Text.isWord c = true) ∧ ∀ c ∈ front.getLast?,
    Text.isWord c = false := by
  refine ⟨(before.reverse.dropWhile Text.isWord).reverse, ?_, ?_, ?_⟩
  · rw [trailingWord, ← List.reverse_append, List.takeWhile_append_dropWhile, List.reverse_reverse]
  · intro c member
    exact List.mem_takeWhile_imp (List.mem_reverse.mp member)
  · intro c last
    rw [List.getLast?_reverse] at last
    exact Text.dropWhile_stops last

end Completion

open Completion

/-- What is offered at a cursor: of all that its context asks for, what starts with the word in
front of it, both in lower case and the marks of directives left aside, in the stable order by sort
text and label. -/
theorem complete_ranked (docs : DocIndex) (source : String) (line character : Nat) :
    let text := lineAt source.toList line
    ∃ front word, text.take character = front ++ word ∧
      (∀ c ∈ word, Text.isWord c = true) ∧ (∀ c ∈ front.getLast?, Text.isWord c = false) ∧
      complete docs source line character =
        ((offered docs (context text (text.take character))).filter fun i =>
          decide (Text.lower word <+: Text.lower (i.label.toList.dropWhile (· = '#')))).mergeSort
              precedes := by
  intro text
  obtain ⟨front, split, inside, maximal⟩ := trailingWord_maximal (text.take character)
  refine ⟨front, trailingWord (text.take character), split, inside, maximal, ?_⟩
  have starts (i : CompletionItem) : decide (Text.lower (trailingWord (text.take character)) <+:
      Text.lower (i.label.toList.dropWhile (· = '#'))) =
      startsWith (trailingWord (text.take character)) i := by
    rw [startsWith, Bool.eq_iff_iff, decide_eq_true_iff, List.isPrefixOf_iff_prefix]
  simp only [starts]
  rw [← candidates_offered, ← Sorting.sort_eq_mergeSort precedes_total precedes_trans]
  rfl

end ScriptLens
