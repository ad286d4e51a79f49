import ScriptLens.Text.Pattern
import Mathlib.Algebra.GroupWithZero.Nat

/-!
What patterns match. A match takes one piece of the text for each item, one behind the other, and
each piece fits its item; and where there is any way to take such pieces, the search for them does
not fail, although it takes as much as it can.
-/

namespace ScriptLens.Text

namespace Item

/-- Whether an item may take a piece of text between the character before it and the text behind
it. -/
def Fits (before : Option Char) (piece rest : List Char) : Item → Prop
  | .one cls => ∃ c, piece = [c] ∧ cls c = true
  | .maybe cls => piece = [] ∨ ∃ c, piece = [c] ∧ cls c = true
  | .many cls => ∀ c ∈ piece, cls c = true
  | .some cls => piece ≠ [] ∧ ∀ c ∈ piece, cls c = true
  | .boundary => piece = [] ∧ (Pattern.isWordAt before != Pattern.isWordAt rest.head?) = true
  | .finish => piece = [] ∧ rest = []

end Item

namespace Pattern

/-- A pattern spells the beginning of a text: the pieces stand one behind the other, each where its
item may take it. -/
inductive Spells : Pattern → Option Char → List Char → Match → Prop
  | nil {before text} : Spells [] before text ⟨[], text⟩
  | item {items before piece rest m} (item : Item) (fits : item.Fits before piece rest)
      (spells : Spells items (piece.getLast?.or before) rest m) :
      Spells (item :: items) before (piece ++ rest) ⟨piece :: m.pieces, m.rest⟩

theorem last_or_cons (c : Char) (piece : List Char) (before : Option Char) :
    (c :: piece).getLast?.or before = piece.getLast?.or (some c) := by
  rw [List.getLast?_cons, Option.some_or]
  cases piece.getLast? <;> rfl

/-- The fewest characters that an item takes. -/
def leastTaken : Item → Nat
  | .one _ | .some _ => 1
  | _ => 0

theorem Spells.least_le {p : Pattern} {before : Option Char} {text : List Char} {m : Match}
    (h : Spells p before text m) : (p.map leastTaken).sum ≤ text.length := by
  induction h with
  | nil => exact Nat.zero_le _
  | @item items before piece rest m item fits spells ih =>
      have taken : leastTaken item ≤ piece.length := by
        cases item with
        | one cls =>
            obtain ⟨c, rfl, _⟩ := fits
            exact Nat.le_refl 1
        | some cls => exact List.length_pos_iff.mpr fits.1
        | _ => exact Nat.zero_le _
      rw [List.map_cons, List.sum_cons, List.length_append]
      omega

/-- A matcher finds nothing but what a relation allows. -/
def Sound (rest : Matcher) (P : Option Char → List Char → Match → Prop) : Prop :=
  ∀ before text m, rest before text = some m → P before text m

/-- A matcher finds something wherever a relation allows something. -/
def Complete (rest : Matcher) (P : Option Char → List Char → Match → Prop) : Prop :=
  ∀ before text m, P before text m → (rest before text).isSome

/-- A piece in front of what a relation allows. -/
def Before (P : Option Char → List Char → Match → Prop)
    (fits : Option Char → List Char → List Char → Prop)
    (before : Option Char) (text : List Char) (m : Match) : Prop :=
  ∃ piece rest n, text = piece ++ rest ∧ fits before piece rest ∧
    P (piece.getLast?.or before) rest n ∧ m = ⟨piece :: n.pieces, n.rest⟩

section Items

variable {rest : Matcher} {P : Option Char → List Char → Match → Prop} {cls : Char → Bool}

theorem skip_sound (sound : Sound rest P) {before : Option Char} {text : List Char} {m : Match}
    {fits : Option Char → List Char → List Char → Prop} (empty : fits before [] text)
    (h : (rest before text).map Match.skip = some m) : Before P fits before text m := by
  obtain ⟨n, found, rfl⟩ := Option.map_eq_some_iff.mp h
  exact ⟨[], text, n, rfl, empty, sound before text n found, rfl⟩

theorem lead_sound (sound : Sound rest P) {before : Option Char} {c : Char} {text : List Char}
    {m : Match} {fits : Option Char → List Char → List Char → Prop} (single : fits before [c] text)
    (h : (rest (some c) text).map (Match.lead c) = some m) :
    Before P fits before (c :: text) m := by
  obtain ⟨n, found, rfl⟩ := Option.map_eq_some_iff.mp h
  exact ⟨[c], text, n, rfl, single, sound (some c) text n found, rfl⟩

theorem greedy_sound (sound : Sound rest P) :
    Sound (greedy cls rest) (Before P fun _ piece _ => ∀ c ∈ piece, cls c = true) := by
  intro before text m h
  induction text generalizing before m with
  | nil => exact skip_sound sound (by simp) h
  | cons c text ih =>
      rw [greedy] at h
      split at h
      · next inside =>
          split at h
          · next n more =>
              cases h
              obtain ⟨piece, back, k, rfl, fits, allowed, rfl⟩ := ih _ _ more
              refine ⟨c :: piece, back, k, rfl, ?_, ?_, rfl⟩
              · simpa [inside] using fits
              · rw [last_or_cons]
                exact allowed
          · exact skip_sound sound (by simp) h
      · exact skip_sound sound (by simp) h

theorem greedy_complete (complete : Complete rest P) :
    Complete (greedy cls rest) (Before P fun _ piece _ => ∀ c ∈ piece, cls c = true) := by
  rintro before text m ⟨piece, back, n, rfl, fits, allowed, -⟩
  induction piece generalizing before with
  | nil =>
      have found := complete before back n allowed
      cases back with
      | nil => simpa [greedy] using found
      | cons c back =>
          rw [List.nil_append, greedy]
          split
          · split
            · rfl
            · simpa using found
          · simpa using found
  | cons c piece ih =>
      have inside : cls c = true := fits c List.mem_cons_self
      rw [last_or_cons] at allowed
      have more := ih (some c) (fun d member => fits d (List.mem_cons_of_mem c member)) allowed
      rw [List.cons_append, greedy, if_pos inside]
      obtain ⟨k, found⟩ := Option.isSome_iff_exists.mp more
      rw [found]
      rfl

theorem matchItem_sound (sound : Sound rest P) (item : Item) :
    Sound (fun before text => matchItem rest before text item)
      (Before P fun before piece back => item.Fits before piece back) := by
  intro before text m h
  cases item with
  | one cls =>
      cases text with
      | nil => cases h
      | cons c text =>
          simp only [matchItem] at h
          split at h
          · next inside => exact lead_sound sound ⟨c, rfl, inside⟩ h
          · cases h
  | maybe cls =>
      cases text with
      | nil => exact skip_sound sound (.inl rfl) h
      | cons c text =>
          simp only [matchItem] at h
          split at h
          · next inside =>
              rcases Option.or_eq_some_iff.mp h with taken | ⟨_, skipped⟩
              · exact lead_sound sound (.inr ⟨c, rfl, inside⟩) taken
              · exact skip_sound sound (.inl rfl) skipped
          · exact skip_sound sound (.inl rfl) h
  | many cls => exact greedy_sound sound before text m h
  | some cls =>
      cases text with
      | nil => cases h
      | cons c text =>
          simp only [matchItem] at h
          split at h
          · next inside =>
              obtain ⟨n, found, rfl⟩ := Option.map_eq_some_iff.mp h
              obtain ⟨piece, back, k, rfl, fits, allowed, rfl⟩ := greedy_sound sound _ _ _ found
              refine ⟨c :: piece, back, k, rfl, ⟨List.cons_ne_nil _ _, ?_⟩, ?_, rfl⟩
              · simpa [inside] using fits
              · rw [last_or_cons]
                exact allowed
          · cases h
  | boundary =>
      simp only [matchItem] at h
      split at h
      · next edge => exact skip_sound sound ⟨rfl, edge⟩ h
      · cases h
  | finish =>
      simp only [matchItem] at h
      split at h
      · next ends => exact skip_sound sound ⟨rfl, List.isEmpty_iff.mp ends⟩ h
      · cases h

theorem matchItem_complete (complete : Complete rest P) (item : Item) :
    Complete (fun before text => matchItem rest before text item)
      (Before P fun before piece back => item.Fits before piece back) := by
  rintro before text m ⟨piece, back, n, rfl, fits, allowed, same⟩
  cases item with
  | one cls =>
      obtain ⟨c, rfl, inside⟩ := fits
      simpa [matchItem, inside] using complete _ back n allowed
  | maybe cls =>
      rcases fits with rfl | ⟨c, rfl, inside⟩
      · have found := complete before back n allowed
        cases back with
        | nil => simpa [matchItem] using found
        | cons c back =>
            simp only [matchItem, List.nil_append]
            split
            · simp [found]
            · simpa using found
      · have found := complete _ back n allowed
        simp only [matchItem, List.singleton_append, if_pos inside, Option.isSome_or,
          Option.isSome_map]
        simpa using .inl found
  | many cls => exact greedy_complete complete before _ m ⟨piece, back, n, rfl, fits, allowed, same⟩
  | some cls =>
      obtain ⟨nonempty, inside⟩ := fits
      cases piece with
      | nil => exact absurd rfl nonempty
      | cons c piece =>
          have first : cls c = true := inside c List.mem_cons_self
          rw [last_or_cons] at allowed
          have more :=
            greedy_complete complete (.some c) (piece ++ back) ⟨piece :: n.pieces, n.rest⟩ ⟨piece,
            back, n, rfl, fun d member => inside d (List.mem_cons_of_mem c member), allowed, rfl⟩
          simpa [matchItem, first] using more
  | boundary =>
      obtain ⟨rfl, edge⟩ := fits
      simp only [matchItem, List.nil_append, if_pos edge, Option.isSome_map]
      exact complete before back n allowed
  | finish =>
      obtain ⟨rfl, rfl⟩ := fits
      simpa [matchItem] using complete before [] n allowed

end Items

/-- A match spells what it took. -/
theorem matchHere_sound (p : Pattern) : Sound (matchHere p) (Spells p) := by
  induction p with
  | nil =>
      intro before text m h
      cases h
      exact .nil
  | cons item items ih =>
      intro before text m h
      obtain ⟨piece, rest, n, rfl, fits, spells, rfl⟩ := matchItem_sound ih item before text m h
      exact .item item fits spells

/-- Where a pattern spells something, there is a match. -/
theorem matchHere_complete (p : Pattern) : Complete (matchHere p) (Spells p) := by
  induction p with
  | nil => exact fun _ _ _ _ => rfl
  | cons item items ih =>
      intro before text m h
      cases h with
      | item _ fits spells =>
          exact matchItem_complete ih item _ _ _ ⟨_, _, _, rfl, fits, spells, rfl⟩

/-- A search that succeeds leaves a part of the text out, and spells what follows. -/
theorem searchFrom_sound {p : Pattern} {before : Option Char} {text skipped : List Char} {m : Match}
    (h : searchFrom p before text = some (skipped, m)) :
    ∃ rest, text = skipped ++ rest ∧ Spells p (skipped.getLast?.or before) rest m := by
  induction text generalizing before skipped with
  | nil =>
      obtain ⟨n, found, same⟩ := Option.map_eq_some_iff.mp h
      cases same
      exact ⟨[], rfl, matchHere_sound p _ _ _ found⟩
  | cons c text ih =>
      rw [searchFrom] at h
      split at h
      · next n found =>
          cases h
          exact ⟨c :: text, rfl, matchHere_sound p _ _ _ found⟩
      · obtain ⟨⟨skipped, n⟩, found, same⟩ := Option.map_eq_some_iff.mp h
        cases same
        obtain ⟨rest, rfl, spells⟩ := ih found
        refine ⟨rest, rfl, ?_⟩
        rw [last_or_cons]
        exact spells

theorem searchFrom_complete {p : Pattern} {before : Option Char} {skipped rest : List Char}
    {m : Match} (spells : Spells p (skipped.getLast?.or before) rest m) :
    (searchFrom p before (skipped ++ rest)).isSome := by
  induction skipped generalizing before with
  | nil =>
      obtain ⟨n, found⟩ := Option.isSome_iff_exists.mp (matchHere_complete p _ _ _ spells)
      rw [List.getLast?_nil, Option.none_or] at found
      cases rest with
      | nil => simp [searchFrom, found]
      | cons c rest => simp [searchFrom, found]
  | cons c skipped ih =>
      rw [last_or_cons] at spells
      have later := ih spells
      rw [List.cons_append, searchFrom]
      split
      · rfl
      · simpa using later

/-- A pattern occurs in a text where it spells something behind any part of it. -/
theorem occurs_iff {p : Pattern} {text : List Char} : p.occurs text = true ↔ ∃ skipped rest m,
    text = skipped ++ rest ∧ Spells p skipped.getLast? rest m := by
  constructor
  · intro h
    obtain ⟨⟨skipped, m⟩, found⟩ := Option.isSome_iff_exists.mp h
    obtain ⟨rest, text, spells⟩ := searchFrom_sound found
    exact ⟨skipped, rest, m, text, by simpa using spells⟩
  · rintro ⟨skipped, rest, m, rfl, spells⟩
    exact searchFrom_complete (by simpa using spells)

end Pattern

end ScriptLens.Text
