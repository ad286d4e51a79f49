import ScriptLens.Position
import ScriptLens.Text.Basic

/-!
Cuts of a text by byte offsets. An offset is a boundary when no character is split there; a text
that is put together from parts is cut back into these parts at the byte lengths of what stands
before them.
-/

namespace ScriptLens.Text

@[simp] theorem byteLength_nil : byteLength [] = 0 := rfl

@[simp] theorem byteLength_cons (c : Char) (text : List Char) :
    byteLength (c :: text) = c.utf8Size + byteLength text := rfl

theorem byteLength_pos {text : List Char} (h : text ≠ []) : 0 < byteLength text := by
  cases text with
  | nil => exact absurd rfl h
  | cons c text =>
      have := c.utf8Size_pos
      rw [byteLength_cons]
      omega

theorem byteLength_toList (s : String) : byteLength s.toList = s.utf8ByteSize := by
  have key : ∀ text : List Char, byteLength text = (String.ofList text).utf8ByteSize := by
    intro text
    induction text with
    | nil => rfl
    | cons c text ih =>
        have whole : String.ofList (c :: text) = String.singleton c ++ String.ofList text := by
          apply String.toList_injective
          simp
        rw [byteLength_cons, ih, whole, String.utf8ByteSize_append, String.utf8ByteSize_singleton]
  rw [key, String.ofList_toList]

section Splits

variable {text : List Char} {P : List Char → List Char → Prop}

/-- All ways to split a text, one for each number of characters. -/
theorem forall_split_iff : (∀ front back, text = front ++ back → P front back) ↔
    ∀ n ∈ List.range (text.length + 1), P (text.take n) (text.drop n) := by
  constructor
  · intro all n _
    exact all _ _ (List.take_append_drop n text).symm
  · rintro all front back rfl
    have inside : front.length ∈ List.range ((front ++ back).length + 1) := by
      rw [List.mem_range, List.length_append]
      omega
    simpa using all front.length inside

theorem exists_split_iff : (∃ front back, text = front ++ back ∧ P front back) ↔
    ∃ n ∈ List.range (text.length + 1), P (text.take n) (text.drop n) := by
  simpa using not_congr (forall_split_iff (P := fun front back => ¬P front back))

end Splits

/-- Whether a byte offset falls between two characters, or at an end, of a text. -/
def IsBoundary (text : List Char) (n : Nat) : Prop := (dropBytes? n text).isSome

instance (text : List Char) (n : Nat) : Decidable (IsBoundary text n) :=
  inferInstanceAs (Decidable ((dropBytes? n text).isSome = true))

@[simp] theorem dropBytes?_zero (text : List Char) : dropBytes? 0 text = some text := by
  cases text <;> simp [dropBytes?]

@[simp] theorem takeBytes?_zero (text : List Char) : takeBytes? 0 text = some [] := by
  cases text <;> simp [takeBytes?]

theorem dropBytes?_append (a b : List Char) : dropBytes? (byteLength a) (a ++ b) = some b := by
  induction a with
  | nil => exact dropBytes?_zero b
  | cons c a ih =>
      have positive := c.utf8Size_pos
      have nonzero : c.utf8Size + byteLength a ≠ 0 := by omega
      rw [byteLength_cons, List.cons_append, dropBytes?, if_neg nonzero, if_pos (by omega),
        Nat.add_sub_cancel_left, ih]

theorem takeBytes?_append (a b : List Char) : takeBytes? (byteLength a) (a ++ b) = some a := by
  induction a with
  | nil => exact takeBytes?_zero b
  | cons c a ih =>
      have positive := c.utf8Size_pos
      have nonzero : c.utf8Size + byteLength a ≠ 0 := by omega
      rw [byteLength_cons, List.cons_append, takeBytes?, if_neg nonzero, if_pos (by omega),
        Nat.add_sub_cancel_left, ih]
      rfl

/-- A part of a text is cut out at the byte lengths before it and up to its end. -/
theorem slice?_append (a b c : List Char) :
    slice? (a ++ (b ++ c)) (byteLength a) (byteLength a + byteLength b) = some b := by
  rw [slice?, if_pos (Nat.le_add_right _ _), dropBytes?_append, Option.bind_some,
    Nat.add_sub_cancel_left, takeBytes?_append]

theorem slice?_of_eq {whole a b c : List Char} {first last : Nat} (h : whole = a ++ (b ++ c))
    (hfirst : first = byteLength a) (hlast : last = byteLength a + byteLength b) :
    slice? whole first last = some b := by
  rw [h, hfirst, hlast, slice?_append]

theorem dropBytes?_behind (before text : List Char) (n : Nat) :
    dropBytes? (n + byteLength before) (before ++ text) = dropBytes? n text := by
  induction before with
  | nil => rfl
  | cons c before ih =>
      have size := c.utf8Size_pos
      rw [List.cons_append, byteLength_cons, dropBytes?, if_neg (by omega), if_pos (by omega), ← ih]
      congr 1
      omega

theorem dropBytes?_before {n : Nat} {text : List Char} (h : n ≤ byteLength text)
    (behind : List Char) :
    dropBytes? n (text ++ behind) = (dropBytes? n text).map (· ++ behind) := by
  induction text generalizing n with
  | nil =>
      rw [Nat.le_zero.mp h, dropBytes?_zero, dropBytes?_zero]
      rfl
  | cons c text ih =>
      rw [List.cons_append, dropBytes?, dropBytes?]
      split
      · rfl
      · split
        · rw [byteLength_cons] at h
          exact ih (by omega)
        · rfl

theorem takeBytes?_before {n : Nat} {text : List Char} (h : n ≤ byteLength text)
    (behind : List Char) : takeBytes? n (text ++ behind) = takeBytes? n text := by
  induction text generalizing n with
  | nil => rw [Nat.le_zero.mp h, takeBytes?_zero, takeBytes?_zero]
  | cons c text ih =>
      rw [List.cons_append, takeBytes?, takeBytes?]
      split
      · rfl
      · split
        · rw [byteLength_cons] at h
          rw [ih (by omega)]
        · rfl

theorem byteLength_of_dropBytes? {n : Nat} {text rest : List Char}
    (h : dropBytes? n text = some rest) : n + byteLength rest = byteLength text := by
  induction text generalizing n with
  | nil =>
      rw [dropBytes?] at h
      split at h
      · next zero =>
          cases h
          rw [zero, byteLength_nil]
      · cases h
  | cons c text ih =>
      rw [dropBytes?] at h
      split at h
      · next zero =>
          cases h
          rw [zero, Nat.zero_add]
      · split at h
        · have inside := ih h
          rw [byteLength_cons]
          omega
        · cases h

/-- A cut is the same in a larger text. -/
theorem slice?_inside {text : List Char} {first last : Nat} (h : last ≤ byteLength text)
    (before behind : List Char) :
    slice? (before ++ (text ++ behind)) (first + byteLength before) (last + byteLength before) =
      slice? text first last := by
  rw [slice?, slice?]
  by_cases order : first ≤ last
  · rw [if_pos order, if_pos (by omega), dropBytes?_behind,
      dropBytes?_before (Nat.le_trans order h)]
    cases found : dropBytes? first text with
    | none => rfl
    | some rest =>
        have length := byteLength_of_dropBytes? found
        have same :
          last + byteLength before - (first + byteLength before) = last - first := by omega
        rw [same]
        exact takeBytes?_before (by omega) behind
  · rw [if_neg order, if_neg (by omega)]

theorem isBoundary_append (a b : List Char) : IsBoundary (a ++ b) (byteLength a) := by
  rw [IsBoundary, dropBytes?_append]
  rfl

theorem dropWhile_of_head {p : Char → Bool} {text : List Char} (h : text.head?.any p = false) :
    text.dropWhile p = text := by
  cases text with
  | nil => rfl
  | cons c text => exact List.dropWhile_cons_of_neg (by simpa using h)

/-- What is left behind a test does not meet it first. -/
theorem dropWhile_stops {α : Type} {p : α → Bool} {xs : List α} {x : α}
    (first : x ∈ (xs.dropWhile p).head?) : p x = false := by
  have stops := List.head?_dropWhile_not p xs
  rwa [Option.mem_def.mp first] at stops

/-- What is left from a mark on starts with the mark. -/
theorem dropWhile_ne_stops {c d : Char} {text : List Char}
    (first : d ∈ (text.dropWhile (· != c)).head?) : d = c := by
  simpa using dropWhile_stops first

/-- A text without characters of a class at its ends is not cut there. -/
theorem dropWhile_reverse_of_last {p : Char → Bool} {text : List Char}
    (h : text.getLast?.any p = false) : text.reverse.dropWhile p = text.reverse := by
  refine dropWhile_of_head ?_
  rw [List.head?_reverse]
  exact h

theorem contains_of_infix {part text : List Char} (h : part <:+: text) :
    contains part text = true := by
  induction text with
  | nil =>
      rw [List.infix_nil.mp h]
      rfl
  | cons c text ih =>
      rw [contains, before?]
      split
      · rfl
      · next other =>
          rcases List.infix_cons_iff.mp h with here | later
          · exact absurd (List.isPrefixOf_iff_prefix.mpr here) other
          · rw [Option.isSome_map]
            exact ih later

end ScriptLens.Text

namespace ScriptLens.Position

@[simp] theorem next_offset (p : Position) (c : Char) :
    (p.next c).offset = p.offset + c.utf8Size := by
  unfold next
  split <;> rfl

@[simp] theorem after_offset (p : Position) (text : List Char) :
    (p.after text).offset = p.offset + Text.byteLength text := by
  induction text generalizing p with
  | nil => rfl
  | cons c text ih => rw [after_cons, ih, next_offset, Text.byteLength_cons, Nat.add_assoc]

@[simp] theorem start_offset : Position.start.offset = 0 := rfl

end ScriptLens.Position
