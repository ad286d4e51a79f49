import ScriptLens.Place
import ScriptLens.Proofs.Text.Places
import Mathlib.Algebra.GroupWithZero.Nat

/-!
The table of line starts as a map between offsets and places. The place of an offset is the one that
reading the script from its start counts, and the line and column of this place lead back to it; a
line and a column of the script lead to an offset whose place they are. Line feeds, empty lines and
the end of the script are no exceptions. Places count in words of 32 bits, and for scripts of fewer
than 2^32 bytes a count leaves its word at one offset at most: the end of a script of 2^32 - 1 line
feeds, or of as many characters on one line.
-/

namespace ScriptLens

namespace Text

/-- A boundary is the number of bytes of a part at the start. -/
theorem IsBoundary.split {text : List Char} {n : Nat} (h : IsBoundary text n) :
    ∃ front back, text = front ++ back ∧ n = byteLength front := by
  induction text generalizing n with
  | nil =>
      by_cases zero : n = 0
      · exact ⟨[], [], rfl, zero⟩
      · rw [IsBoundary, dropBytes?, if_neg zero] at h
        cases h
  | cons c text ih =>
      by_cases zero : n = 0
      · exact ⟨[], c :: text, rfl, zero⟩
      · by_cases inside : c.utf8Size ≤ n
        · rw [IsBoundary, dropBytes?, if_neg zero, if_pos inside] at h
          obtain ⟨front, back, rfl, rest⟩ := ih h
          exact ⟨c :: front, back, rfl, by rw [byteLength_cons, ← rest, Nat.add_sub_cancel' inside]⟩
        · rw [IsBoundary, dropBytes?, if_neg zero, if_neg inside] at h
          cases h

theorem length_splitLines (text : List Char) : (splitLines text).length = text.count '\n' + 1 := by
  induction text with
  | nil => rfl
  | cons c text ih =>
      rw [splitLines]
      split
      · next feed => rw [List.length_cons, ih, feed, List.count_cons_self]
      · next other =>
          rw [List.count_cons_of_ne other, ← ih]
          cases lines : splitLines text with
          | nil =>
              rw [lines] at ih
              cases ih
          | cons line rest => rfl

end Text

namespace Position

/-- An offset at or behind the end of a text is reached at its end. -/
theorem walk_past {p : Position} {text : List Char} {offset : Nat}
    (h : p.offset + Text.byteLength text ≤ offset) : walk offset p text = p.after text := by
  induction text generalizing p with
  | nil => rfl
  | cons c text ih =>
      have positive := c.utf8Size_pos
      rw [Text.byteLength_cons] at h
      rw [walk, if_pos (by omega), ih (by rw [next_offset]; omega), after_cons]

theorem ofOffset_past {source : String} {offset : Nat} (h : source.utf8ByteSize ≤ offset) :
    ofOffset source offset = start.after source.toList := by
  have size := Text.byteLength_toList source
  have whole : (start.after source.toList).offset = source.utf8ByteSize := by
    rw [after_offset, start_offset, Nat.zero_add, size]
  rw [ofOffset, walk_past (by rw [start_offset, Nat.zero_add, size]; exact h),
    Nat.min_eq_right h, ← whole]

/-- A place of a text stands on a line, behind as many characters as its column says. -/
theorem In.lineAt {text : List Char} {p : Position} (h : p.In text) : ∃ front line back,
    Text.LineAt text p.line front line back ∧ p = start.after (front ++ line) ∧
    p.column = line.length + 1 := by
  obtain ⟨read, back, rfl, rfl⟩ := h
  obtain ⟨front, line, rfl, whole, free⟩ := exists_wholeLines read
  have place : start.after (front ++ line) =
      ⟨1 + front.count '\n', 1 + line.length, Text.byteLength front + Text.byteLength line⟩ := by
    rw [after_append, whole.start_after, after_of_notMem_newline free, behind]
    simp [start]
  refine ⟨front, line, back, ⟨List.append_assoc _ _ _, whole, ?_, free⟩, rfl, ?_⟩
  · rw [place]
    exact Nat.add_comm 1 _
  · rw [place]
    exact Nat.add_comm 1 _

end Position

namespace LineIndex

theorem startsAfter_increase (offset : Nat) (text : List Char) :
    (startsAfter offset text).Pairwise (· < ·) := by
  induction text generalizing offset with
  | nil => exact .nil
  | cons c text ih =>
      rw [startsAfter]
      split
      · exact .cons (fun n later => (startsAfter_bounds later).1) (ih _)
      · exact ih _

theorem position_past {text : List Char} {offset : Nat} (h : Text.byteLength text ≤ offset) :
    (ofText text).position offset = Position.start.after text := by
  have ends := position_after text []
  rw [List.append_nil, Position.after_offset, Position.start_offset, Nat.zero_add] at ends
  have size : (ofText text).size = Text.byteLength text := rfl
  rw [← ends, position, position, size, Nat.min_eq_right h, Nat.min_self]

/-- The look-up of a place by its line and column gives the place. -/
theorem positionAt_of_in {text : List Char} {p : Position} (h : p.In text) :
    (ofText text).positionAt p.line p.column = p := by
  obtain ⟨front, line, back, here, place, column⟩ := h.lineAt
  rw [column, here.positionAt (Nat.le_refl _), List.take_length, ← place]

end LineIndex

namespace Place

/-- The place with its counts as numbers. -/
def position (p : Place) : Position := ⟨p.line.toNat, p.column.toNat, p.offset⟩

theorem position_injective {p q : Place} (h : p.position = q.position) : p = q := by
  obtain ⟨line, column, offset⟩ := Position.mk.inj h
  cases p
  cases q
  rw [Place.mk.injEq]
  exact ⟨UInt32.toNat_inj.mp line, UInt32.toNat_inj.mp column, offset⟩

end Place

namespace Position

/-- A character raises the line and the column by one together at most. -/
theorem next_counts {p : Position} (c : Char) (line : 1 ≤ p.line) (column : 1 ≤ p.column) :
    1 ≤ (p.next c).line ∧ 1 ≤ (p.next c).column ∧
    (p.next c).line + (p.next c).column ≤ p.line + p.column + 1 := by
  rw [next]
  split <;> dsimp only <;> omega

/-- The place with its counts in words; none where one of them leaves its word. -/
def place? (p : Position) : Option Place := do
  let column ← word? UInt32.size p.column
  let line ← word? UInt32.size p.line
  return ⟨line.toUInt32, column.toUInt32, p.offset⟩

variable {p : Position} {q : Place}

theorem place?_of_lt (line : p.line < 2 ^ 32) (column : p.column < 2 ^ 32) :
    p.place? = some ⟨p.line.toUInt32, p.column.toUInt32, p.offset⟩ := by
  rw [place?, word?_of_lt (show p.line < UInt32.size from line),
    word?_of_lt (show p.column < UInt32.size from column)]
  rfl

theorem place?_eq_none_iff : p.place? = none ↔ 2 ^ 32 ≤ p.line ∨ 2 ^ 32 ≤ p.column := by
  by_cases line : p.line < 2 ^ 32
  · by_cases column : p.column < 2 ^ 32
    · rw [place?_of_lt line column]
      exact iff_of_false (Option.some_ne_none _) (by omega)
    · have large : UInt32.size ≤ p.column := Nat.le_of_not_lt column
      rw [place?, word?_of_le large]
      exact iff_of_true rfl (.inr large)
  · have large : UInt32.size ≤ p.line := Nat.le_of_not_lt line
    rw [place?, word?_of_le large]
    exact iff_of_true (by cases word? UInt32.size p.column <;> rfl) (.inl large)

theorem place?_eq_some_iff : p.place? = some q ↔ q.position = p := by
  constructor
  · intro found
    have fits := mt place?_eq_none_iff.mpr (found ▸ Option.some_ne_none q)
    rw [not_or, Nat.not_le, Nat.not_le] at fits
    rw [place?_of_lt fits.1 fits.2] at found
    rw [← Option.some.inj found, Place.position, toNat_toUInt32 fits.1, toNat_toUInt32 fits.2]
  · rintro rfl
    rw [place?_of_lt q.line.toNat_lt q.column.toNat_lt]
    exact congrArg some (Place.position_injective (by simp [Place.position]))

end Position

namespace Place

theorem next?_eq (p : Place) (c : Char) : p.next? c = (p.position.next c).place? := by
  unfold next? Position.next Position.place? count?
  split
  · rw [word?_of_lt (by decide : 1 < UInt32.size)]
    dsimp only [position]
    cases word? UInt32.size (p.line.toNat + 1) <;> rfl
  · dsimp only [position]
    rw [word?_of_lt p.line.toNat_lt_size]
    cases word? UInt32.size (p.column.toNat + 1) <;> simp

/-- Reading on stops where the place behind the text has no words for its counts. A count leaves its
word behind the last character at the earliest, so it is not begun anew behind that. -/
theorem walk?_eq {offset : Nat} {p : Place} {text : List Char} (line : 1 ≤ p.position.line)
    (column : 1 ≤ p.position.column)
    (short : p.position.line + p.position.column + text.length ≤ 2 ^ 32 + 1) :
    walk? offset p text = (Position.walk offset p.position text).place? := by
  induction text generalizing p with
  | nil => exact (Position.place?_eq_some_iff.mpr rfl).symm
  | cons c text ih =>
      have counts := Position.next_counts c line column
      rw [List.length_cons] at short
      rw [walk?, Position.walk]
      by_cases below : p.offset < offset
      · rw [if_pos below, if_pos (show p.position.offset < offset from below), next?_eq]
        cases next : (p.position.next c).place? with
        | none =>
            have large := Position.place?_eq_none_iff.mp next
            have last : text = [] := List.eq_nil_of_length_eq_zero (by omega)
            rw [last]
            exact next.symm
        | some q =>
            have same := Position.place?_eq_some_iff.mp next
            rw [← same] at counts ⊢
            exact ih counts.1 counts.2.1 (by omega)
      · rw [if_neg below, if_neg (show ¬p.position.offset < offset from below)]
        exact (Position.place?_eq_some_iff.mpr rfl).symm

theorem ofOffset?_eq {source : String} (short : source.toList.length < 2 ^ 32) (offset : Nat) :
    ofOffset? source offset = (Position.ofOffset source offset).place? := by
  have walked :
      walk? offset start source.toList = (Position.walk offset .start source.toList).place? :=
    walk?_eq (Nat.le_refl 1) (Nat.le_refl 1) (by
      change 1 + 1 + _ ≤ _
      omega)
  rw [ofOffset?, walked, Position.ofOffset, Position.place?, Position.place?]
  dsimp only
  cases word? UInt32.size (Position.walk offset .start source.toList).column with
  | none => rfl
  | some column => cases word? UInt32.size (Position.walk offset .start source.toList).line <;> rfl

end Place

namespace LineIndex

theorem Reaches.place? {index : LineIndex} {offset above : Nat} {lead : List Char}
    (h : index.Reaches offset above lead) (line : above < 2 ^ 32) (column : lead.length < 2 ^ 32) :
    index.place? offset = (index.position offset).place? := by
  rw [h.position, LineIndex.place?, Nat.min_eq_left h.inside, h.starts, Nat.add_sub_cancel, h.line]
  simp only [Place.count?, Position.place?, Option.bind_eq_bind, Option.bind_some]
  rw [toNat_toUInt32 line, toNat_toUInt32 column]
  cases word? UInt32.size (lead.length + 1) <;> cases word? UInt32.size (above + 1) <;> rfl

theorem placeAt_position (index : LineIndex) (line column : UInt32) :
    (index.placeAt line column).position = index.positionAt line.toNat column.toNat := by
  rw [Place.position, placeAt, UInt32.toNat_max, UInt32.toNat_max]
  rfl

/-- An offset between two characters, or one past the end and cut to it, stands behind the first
characters of the text, and its place is where they end. -/
theorem found {source : String} {offset : Nat}
    (h : Text.IsBoundary source.toList offset ∨ source.utf8ByteSize ≤ offset) : ∃ front back,
    source.toList = front ++ back ∧ (ofSource source).position offset = Position.start.after front ∧
      Position.ofOffset source offset = Position.start.after front ∧
      (ofSource source).place? offset =
      (ofSource source).place? (Position.start.after front).offset := by
  rcases h with inside | past
  · obtain ⟨front, back, split, rfl⟩ := inside.split
    have located := Position.located_after split
    have offset : (Position.start.after front).offset = Text.byteLength front := by
      rw [Position.after_offset, Position.start_offset, Nat.zero_add]
    rw [← offset]
    exact ⟨front, back, split, located.indexed, located.walked, rfl⟩
  · have ends : (Position.start.after source.toList).offset = (ofSource source).size := by
      rw [Position.after_offset, Position.start_offset, Nat.zero_add]
      rfl
    have cut : (ofSource source).size ≤ offset := (Text.byteLength_toList source).trans_le past
    refine ⟨source.toList, [], (List.append_nil _).symm, position_past cut,
      Position.ofOffset_past past, ?_⟩
    rw [ends, place?, place?, Nat.min_eq_right cut, Nat.min_self]

/-- The counts of a place are those of numbers of any size, where they fit. -/
theorem place?_eq {source : String} (short : source.toList.length < 2 ^ 32) {offset : Nat}
    (h : Text.IsBoundary source.toList offset ∨ source.utf8ByteSize ≤ offset) :
    (ofSource source).place? offset = ((ofSource source).position offset).place? := by
  obtain ⟨front, back, split, place, -, cut⟩ := found h
  obtain ⟨lines, lead, parts, reaches, -⟩ := reaches_after front back
  have feeds := List.count_le_length (a := '\n') (l := lines)
  rw [split, List.length_append, parts, List.length_append] at short
  rw [← split] at reaches
  rw [cut, place, ofSource, reaches.place? (by omega) (by omega), ← ofSource,
    (Position.located_after split).indexed]

/-- A text at whose end a count leaves its word: so many line feeds, or so many characters on one
line. -/
def Full (text : List Char) : Prop :=
  text.length = 2 ^ 32 - 1 ∧ ((∀ c ∈ text, c = '\n') ∨ '\n' ∉ text)

/-- The counts of a place leave their words at the end of a full text only. -/
theorem place?_eq_none_iff {text : List Char} (short : text.length < 2 ^ 32) {p : Position}
    (h : p.In text) : p.place? = none ↔ Full text ∧ p = Position.start.after text := by
  rw [Position.place?_eq_none_iff]
  constructor
  · intro large
    obtain ⟨front, line, back, here, place, column⟩ := h.lineAt
    have feeds := List.count_le_length (a := '\n') (l := front)
    have length : text.length = front.length + (line.length + back.length) := by
      rw [here.split, List.length_append, List.length_append]
    rw [here.number, column] at large
    have last : back = [] := List.eq_nil_of_length_eq_zero (by omega)
    have whole : text = front ++ line := by rw [here.split, last, List.append_nil]
    refine ⟨⟨by omega, ?_⟩, whole ▸ place⟩
    rcases large with feed | wide
    · have bare : line = [] := List.eq_nil_of_length_eq_zero (by omega)
      have all := List.count_eq_length.mp (show front.count '\n' = front.length by omega)
      rw [whole, bare, List.append_nil]
      exact .inl fun c member => (all c member).symm
    · have bare : front = [] := List.eq_nil_of_length_eq_zero (by omega)
      rw [whole, bare, List.nil_append]
      exact .inr here.free
  · rintro ⟨⟨length, feeds | free⟩, rfl⟩
    · have all : text.count '\n' = text.length := List.count_eq_length.mpr fun c member =>
        (feeds c member).symm
      left
      rw [Position.after_line, all, length]
      exact Nat.le_refl (2 ^ 32)
    · right
      rw [Position.after_of_notMem_newline free, length]
      exact Nat.le_refl (2 ^ 32)

/-- Looking up places by offset and by line and column. -/
structure Invertible (source : String) : Prop where
  /-- The line starts increase, so the last one up to an offset may be searched by halves. -/
  increasing : (ofSource source).starts.Pairwise (· < ·)
  lines : (ofSource source).lineCount = (Text.splitLines source.toList).length
  /-- The place of an offset is the one that reading the script up to there counts, and where one of
  the two has no words for its counts the other has none. -/
  walked : ∀ offset, Text.IsBoundary source.toList offset ∨ source.utf8ByteSize ≤ offset →
    (ofSource source).place? offset = Place.ofOffset? source offset
  /-- Only the end of a full script has no place. -/
  missing : ∀ offset, Text.IsBoundary source.toList offset ∨ source.utf8ByteSize ≤ offset →
    ((ofSource source).place? offset = none ↔ Full source.toList ∧ source.utf8ByteSize ≤ offset)
  /-- The line and the column of an offset lead back to its place. -/
  back : ∀ offset p, Text.IsBoundary source.toList offset →
    (ofSource source).place? offset = some p → (ofSource source).placeAt p.line p.column = p
  /-- The offset of a column on a line, up to the one behind its last character, has this line and
  column. -/
  forth : ∀ l c : UInt32, 1 ≤ l → 1 ≤ c →
    ∀ line, (Text.splitLines source.toList)[l.toNat - 1]? = some line → c.toNat ≤ line.length + 1 →
    ∃ p, (ofSource source).place? ((ofSource source).placeAt l c).offset = some p ∧
    p.line = l ∧ p.column = c

end LineIndex

/-- The table of line starts is a map between offsets and places that can be inverted, for every
script of fewer than 2^32 bytes, but for the end of a full one. -/
theorem lineIndex_invertible (source : String) (short : source.utf8ByteSize < 2 ^ 32) :
    LineIndex.Invertible source := by
  have size := Text.byteLength_toList source
  have chars := Text.length_le_byteLength source.toList
  replace chars : source.toList.length < 2 ^ 32 := by omega
  refine ⟨?_, ?_, fun offset h => ?_, fun offset h => ?_, fun offset p h found => ?_, ?_⟩
  · exact .cons (fun n later => (LineIndex.startsAfter_bounds later).1)
      (LineIndex.startsAfter_increase 0 _)
  · rw [Text.length_splitLines, ← LineIndex.length_startsAfter 0]
    rfl
  · obtain ⟨front, back, -, place, read, -⟩ := LineIndex.found h
    rw [LineIndex.place?_eq chars h, Place.ofOffset?_eq chars, place, read]
  · obtain ⟨front, back, split, place, -, -⟩ := LineIndex.found h
    rw [LineIndex.place?_eq chars h,
      LineIndex.place?_eq_none_iff chars (place ▸ Position.in_after split)]
    refine and_congr_right fun _ =>
      ⟨fun ends => ?_, fun past => LineIndex.position_past (size.trans_le past)⟩
    have last :
        min offset (Text.byteLength source.toList) = (Position.start.after source.toList).offset :=
      congrArg Position.offset ends
    rw [Position.after_offset, Position.start_offset] at last
    omega
  · obtain ⟨front, back, split, place, -, -⟩ := LineIndex.found (.inl h)
    rw [LineIndex.place?_eq chars (.inl h), Position.place?_eq_some_iff] at found
    refine Place.position_injective ?_
    have inside : p.position.In source.toList := found ▸ place ▸ Position.in_after split
    rw [LineIndex.placeAt_position]
    exact LineIndex.positionAt_of_in inside
  · intro l c first first' line isLine inside
    obtain ⟨front, back, here⟩ := Text.lineAt_of_splitLines isLine
    have line' : 1 ≤ l.toNat := UInt32.le_iff_toNat_le.mp first
    have column : 1 ≤ c.toNat := UInt32.le_iff_toNat_le.mp first'
    have place := here.positionAt (show c.toNat - 1 ≤ line.length by omega)
    rw [Nat.sub_add_cancel line', Nat.sub_add_cancel column] at place
    have split : source.toList =
        (front ++ line.take (c.toNat - 1)) ++ (line.drop (c.toNat - 1) ++ back) := by
      rw [List.append_assoc, ← List.append_assoc (line.take _), List.take_append_drop, ← here.split]
    have reached : ((LineIndex.ofSource source).placeAt l c).position =
        Position.start.after (front ++ line.take (c.toNat - 1)) :=
      (LineIndex.placeAt_position _ l c).trans place
    have offset : ((LineIndex.ofSource source).placeAt l c).offset =
        (Position.start.after (front ++ line.take (c.toNat - 1))).offset :=
        congrArg Position.offset place
    have own {n : UInt32} (counts : 1 ≤ n.toNat) : max n 1 = n :=
      UInt32.toNat_inj.mp ((UInt32.toNat_max n 1).trans (Nat.max_eq_left counts))
    refine ⟨(LineIndex.ofSource source).placeAt l c, ?_, own line', own column⟩
    rw [offset, LineIndex.place?_eq chars (.inl (Position.in_after split).boundary),
      (Position.located_after split).indexed, ← reached, Position.place?_eq_some_iff]

/-- A carriage return, a character of two bytes, an empty line and a last line that is empty. -/
theorem lineIndex_invertible_sample : "é\r\n\nx\n".utf8ByteSize < 2 ^ 32 ∧
    (LineIndex.ofSource "é\r\n\nx\n").place? 3 = Place.ofOffset? "é\r\n\nx\n" 3 ∧
    (LineIndex.ofSource "é\r\n\nx\n").place? 7 = some ⟨4, 1, 7⟩ ∧
    (LineIndex.ofSource "é\r\n\nx\n").placeAt 4 1 = ⟨4, 1, 7⟩ ∧
    ∃ p, (LineIndex.ofSource "é\r\n\nx\n").place?
      ((LineIndex.ofSource "é\r\n\nx\n").placeAt 2 1).offset = some p ∧ p.line = 2 ∧
      p.column = 1 := by
  have map := lineIndex_invertible "é\r\n\nx\n" (by decide)
  have last : (LineIndex.ofSource "é\r\n\nx\n").place? 7 = some ⟨4, 1, 7⟩ := by decide
  exact ⟨by decide, map.walked 3 (.inl (by decide)), last, map.back 7 _ (by decide) last,
    map.forth 2 1 (by decide) (by decide) [] (by decide) (by decide)⟩

/-- Not every end of a script of fewer than 2^32 bytes has a place, and the line feed is no
character of its line: the column behind it is cut to the one in front of it. -/
theorem lineIndex_full : (¬ ∀ source : String, source.utf8ByteSize < 2 ^ 32 → ∀ offset,
      Text.IsBoundary source.toList offset → ((LineIndex.ofSource source).place? offset).isSome) ∧
    (LineIndex.ofSource "a\n").place? ((LineIndex.ofSource "a\n").placeAt 1 3).offset =
    some ⟨1, 2, 1⟩ := by
  refine ⟨fun all => ?_, by decide⟩
  obtain ⟨text, letters⟩ : ∃ text, text = List.replicate (2 ^ 32 - 1) 'a' := ⟨_, rfl⟩
  have length : text.length = 2 ^ 32 - 1 := letters ▸ List.length_replicate
  have size : (String.ofList text).utf8ByteSize = 2 ^ 32 - 1 := by
    rw [← Text.byteLength_toList, String.toList_ofList, letters, Text.byteLength_replicate]
    exact Nat.mul_one _
  have full : LineIndex.Full (String.ofList text).toList := by
    rw [String.toList_ofList]
    refine ⟨length, .inr fun feed => ?_⟩
    rw [letters] at feed
    cases (List.mem_replicate.mp feed).2
  have short : (String.ofList text).utf8ByteSize < 2 ^ 32 := by omega
  have ends : Text.IsBoundary (String.ofList text).toList (String.ofList text).utf8ByteSize := by
    have last := Position.in_after (List.append_nil (String.ofList text).toList).symm
    have offset := last.boundary
    rwa [Position.after_offset, Position.start_offset, Nat.zero_add,
      Text.byteLength_toList] at offset
  have none := ((lineIndex_invertible _ short).missing _ (.inl ends)).mpr ⟨full, Nat.le_refl _⟩
  have some := all _ short _ ends
  rw [none] at some
  cases some

end ScriptLens
