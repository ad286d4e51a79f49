import ScriptLens.Proofs.Highlight.Tiling
import ScriptLens.Proofs.Scan.Places

/-!
Places and ranges in a text, and the look-ups that find them. A place of a text stands behind its
first characters; the place of a byte offset is looked up between two characters, and the place of a
column on a line that holds so many characters.
-/

namespace ScriptLens

/-- A place in a text, behind its first characters. -/
def Position.In (text : List Char) (p : Position) : Prop :=
  ∃ front back, text = front ++ back ∧ p = start.after front

/-- A range in a text, between two places in order. -/
structure Span.In (text : List Char) (s : Span) : Prop where
  start : s.start.In text
  stop : s.stop.In text
  ordered : s.start.offset ≤ s.stop.offset

namespace Position

variable {text front back : List Char} {p : Position}

theorem in_after (h : text = front ++ back) : (start.after front).In text := ⟨front, back, h, rfl⟩

theorem in_start (text : List Char) : start.In text := ⟨[], text, rfl, rfl⟩

theorem In.boundary (h : p.In text) : Text.IsBoundary text p.offset := by
  obtain ⟨front, back, rfl, rfl⟩ := h
  rw [Text.IsBoundary, after_offset, start_offset, Nat.zero_add, Text.dropBytes?_append]
  rfl

theorem In.inside (h : p.In text) : p.offset ≤ Text.byteLength text := by
  obtain ⟨front, back, rfl, rfl⟩ := h
  rw [after_offset, start_offset, Text.byteLength_append]
  omega

end Position

namespace Span

variable {text : List Char}

theorem in_point {p : Position} (h : p.In text) : (point p).In text := ⟨h, h, Nat.le_refl _⟩

/-- The range of a part of a text. -/
theorem in_part {front part back : List Char} (h : text = front ++ (part ++ back)) :
    (Span.mk (Position.start.after front) (Position.start.after (front ++ part))).In text := by
  refine ⟨Position.in_after h, ⟨front ++ part, back, by rw [h, List.append_assoc], rfl⟩, ?_⟩
  rw [Position.after_append, Position.after_offset _ part]
  exact Nat.le_add_right _ _

/-- The text of a range can be cut out. -/
theorem In.slice {s : Span} (h : s.In text) :
    (Text.slice? text s.start.offset s.stop.offset).isSome := by
  obtain ⟨front, back, split, first⟩ := h.start
  obtain ⟨front', back', split', last⟩ := h.stop
  have ordered := h.ordered
  rw [first, last, Position.after_offset, Position.after_offset, Position.start_offset,
    Nat.zero_add, Nat.zero_add] at ordered
  rw [first, last, Position.after_offset, Position.after_offset, Position.start_offset,
    Nat.zero_add, Nat.zero_add]
  rcases List.prefix_or_prefix_of_prefix ⟨back, split.symm⟩ ⟨back', split'.symm⟩ with
    ⟨part, rfl⟩ | ⟨part, rfl⟩
  · have cut := Text.slice?_append front part back'
    rw [← List.append_assoc, ← split', ← Text.byteLength_append] at cut
    rw [cut]
    rfl
  · have empty : part = [] := by
      by_contra some
      have positive := Text.byteLength_pos some
      rw [Text.byteLength_append] at ordered
      omega
    have cut := Text.slice?_append front' [] back'
    rw [List.nil_append, ← split', Text.byteLength_nil, Nat.add_zero] at cut
    rw [empty, List.append_nil, cut]
    rfl

/-- A range of real source: its ends fall between characters, in order and within the script, and
its lines and columns are those of its offsets. -/
structure Real (source : String) (s : Span) : Prop where
  placed : s.Placed source
  first : Text.IsBoundary source.toList s.start.offset
  last : Text.IsBoundary source.toList s.stop.offset

theorem In.real {source : String} {s : Span} (h : s.In source.toList) : s.Real source := by
  refine ⟨⟨h.ordered, ?_, ?_, ?_⟩, h.start.boundary, h.stop.boundary⟩
  · rw [← Text.byteLength_toList]
    exact h.stop.inside
  · obtain ⟨front, back, split, place⟩ := h.start
    rw [place]
    exact Position.ofOffset_after split
  · obtain ⟨front, back, split, place⟩ := h.stop
    rw [place]
    exact Position.ofOffset_after split

end Span

/-- Tokens that tile a text stand in it. -/
theorem Tiled.span_in {read rest text : List Char} {tokens : List Token}
    (tiled : Tiled .start read tokens)
    (split : text = read ++ rest) {t : Token} (member : t ∈ tokens) : t.span.In text := by
  obtain ⟨before, body, behind, parts, covers⟩ := tiled.place member
  have whole : text = before ++ (body ++ (behind ++ rest)) := by simp [split, parts]
  have range := Span.in_part whole
  rw [Position.after_append, ← covers.stop, ← covers.start] at range
  exact range

namespace Text

theorem length_le_byteLength (text : List Char) : text.length ≤ byteLength text := by
  induction text with
  | nil => exact Nat.le_refl 0
  | cons c text ih =>
      have size := c.utf8Size_pos
      rw [List.length_cons, byteLength_cons]
      omega

theorem byteLength_replicate (n : Nat) (c : Char) :
    byteLength (List.replicate n c) = n * c.utf8Size := by
  induction n with
  | zero => rw [List.replicate_zero, byteLength_nil, Nat.zero_mul]
  | succ n ih => rw [List.replicate_succ, byteLength_cons, ih, Nat.succ_mul, Nat.add_comm]

/-- A line of a text with its number: whole lines stand in front of it, and a carriage return may
stand behind it. -/
structure LineAt (text : List Char) (number : Nat) (front line back : List Char) : Prop where
  split : text = front ++ (line ++ back)
  whole : WholeLines front
  number : number = front.count '\n' + 1
  free : '\n' ∉ line

theorem LineAt.below {number : Nat} {first rest front line back : List Char}
    (h : LineAt rest number front line back) (free : '\n' ∉ first) :
    LineAt (first ++ '\n' :: rest) (number + 1) (first ++ '\n' :: front) line back := by
  refine ⟨?_, ?_, ?_, h.free⟩
  · rw [h.split]
    simp
  · intro c last
    rw [List.getLast?_append, List.getLast?_cons, Option.some_or] at last
    cases ends : front.getLast? with
    | none =>
        rw [ends] at last
        exact (Option.some.inj last).symm
    | some d =>
        rw [ends] at last
        cases last
        exact h.whole _ ends
  · rw [h.number, List.count_append, List.count_eq_zero.mpr free, List.count_cons_self]
    omega

/-- Each piece between line feeds has its place. -/
theorem lineAt_of_splitLines {text line : List Char} {i : Nat}
    (h : (splitLines text)[i]? = some line) :
    ∃ front back, LineAt text (i + 1) front line back := by
  -- by induction on the number of the line: the first one and its line feed come off
  induction i generalizing text with
  | zero =>
      by_cases feed : '\n' ∈ text
      · obtain ⟨first, rest, rfl, free⟩ := List.eq_append_cons_of_mem feed
        rw [splitLines_feed free, List.getElem?_cons_zero] at h
        cases h
        exact ⟨[], '\n' :: rest, rfl, wholeLines_nil, rfl, free⟩
      · rw [splitLines_line feed, List.getElem?_cons_zero] at h
        cases h
        exact ⟨[], [], (List.append_nil _).symm, wholeLines_nil, rfl, feed⟩
  | succ i ih =>
      by_cases feed : '\n' ∈ text
      · obtain ⟨first, rest, rfl, free⟩ := List.eq_append_cons_of_mem feed
        rw [splitLines_feed free, List.getElem?_cons_succ] at h
        obtain ⟨front, back, here⟩ := ih h
        exact ⟨_, _, here.below free⟩
      · rw [splitLines_line feed, List.getElem?_cons_succ] at h
        cases h

/-- Each line of a text has its place. -/
theorem lineAt_of_lines {text line : List Char} {i : Nat} (h : (lines text)[i]? = some line) :
    ∃ front back, LineAt text (i + 1) front line back := by
  rw [lines, List.getElem?_map] at h
  obtain ⟨piece, found, rfl⟩ := Option.map_eq_some_iff.mp h
  obtain ⟨front, back, place⟩ := lineAt_of_splitLines found
  obtain ⟨tail, whole, _⟩ := stripReturn_append piece
  refine ⟨front, tail ++ back, ?_, place.whole, place.number, fun member => ?_⟩
  · rw [← List.append_assoc (stripReturn piece), ← whole, ← place.split]
  · exact place.free (whole ▸ List.mem_append_left tail member)

namespace LineAt

variable {text front line back : List Char} {number : Nat}

/-- The place of a line's first character. -/
theorem lineStart (h : LineAt text number front line back) :
    (LineIndex.ofText text).lineStart number = byteLength front := by
  have within : front.count '\n' < (0 :: LineIndex.startsAfter 0 front).length := by
    rw [List.length_cons, LineIndex.length_startsAfter]
    exact Nat.lt_succ_self _
  have begins := LineIndex.lastStart h.whole
  rw [List.getD_eq_getElem _ _ within] at begins
  rw [LineIndex.lineStart, LineIndex.ofText, h.split, LineIndex.startsAfter_append,
    ← List.cons_append, h.number, Nat.max_eq_left (Nat.le_add_left 1 _), Nat.add_sub_cancel,
    List.getD_append _ _ _ _ within, List.getD_eq_getElem _ _ within, begins]

theorem tail (h : LineAt text number front line back) :
    (LineIndex.ofText text).tail (byteLength front) = line ++ back := by
  rw [LineIndex.tail, LineIndex.ofText, h.split, dropBytes?_append, Option.getD_some]

/-- The place behind the first characters of a line. -/
theorem positionAt (h : LineAt text number front line back) {column : Nat}
    (inside : column ≤ line.length) : (LineIndex.ofText text).positionAt number (column + 1) =
    Position.start.after (front ++ line.take column) := by
  have free : ∀ c ∈ line, (c != '\n') = true := fun c member => bne_iff_ne.mpr fun feed =>
    h.free (feed ▸ member)
  have free' : '\n' ∉ line.take column := fun member => h.free (List.mem_of_mem_take member)
  have first : (line ++ back.takeWhile (· != '\n')).take column = line.take column :=
    List.take_append_of_le_length inside
  rw [LineIndex.positionAt, h.lineStart, h.tail, List.takeWhile_append_of_pos free,
    Nat.max_eq_left (Nat.le_add_left 1 column), Nat.add_sub_cancel, first, Position.after_append,
    h.whole.start_after, Position.after_of_notMem_newline free', h.number]
  simp [Position.behind, Position.start, Nat.add_comm, Nat.min_eq_left inside]

/-- Columns of a line bound a part of the text. -/
theorem columns (h : LineAt text number front line back) {first last : Nat} (ordered : first ≤ last)
    (inside : last ≤ line.length) :
    (Span.mk ((LineIndex.ofText text).positionAt number (first + 1))
      ((LineIndex.ofText text).positionAt number (last + 1))).In text := by
  have parts : line.take first ++ (line.take last).drop first = line.take last := by
    have := List.take_append_drop first (line.take last)
    rwa [List.take_take, Nat.min_eq_left ordered] at this
  have whole :
      front ++ line.take first ++ (line.take last).drop first = front ++ line.take last := by
    rw [List.append_assoc, parts]
  have split : text =
      (front ++ line.take first) ++ ((line.take last).drop first ++ (line.drop last ++ back)) := by
    rw [← List.append_assoc, whole, List.append_assoc, ← List.append_assoc (line.take last),
      List.take_append_drop, ← h.split]
  have range := Span.in_part split
  rw [whole] at range
  rw [h.positionAt (Nat.le_trans ordered inside), h.positionAt inside]
  exact range

end LineAt

end Text

namespace LineIndex

/-- Two byte offsets around a part of a text are looked up where it begins and ends. -/
theorem positions {text front part back : List Char} (h : text = front ++ (part ++ back)) :
    Span.mk ((ofText text).position (Text.byteLength front))
        ((ofText text).position (Text.byteLength front + Text.byteLength part)) =
      ⟨Position.start.after front, Position.start.after (front ++ part)⟩ := by
  have first := position_after front (part ++ back)
  have last := position_after (front ++ part) back
  rw [Position.after_offset, Position.start_offset, Nat.zero_add] at first last
  rw [← h] at first
  rw [List.append_assoc, ← h, Text.byteLength_append] at last
  rw [first, last]

theorem mem_startsAfter {offset n : Nat} {text : List Char} (member : n ∈ startsAfter offset text) :
    ∃ front back, text = front ++ back ∧ n = offset + Text.byteLength front := by
  induction text generalizing offset with
  | nil => cases member
  | cons c text ih =>
      have later (h : n ∈ startsAfter (offset + c.utf8Size) text) :
          ∃ front back, c :: text = front ++ back ∧ n = offset + Text.byteLength front := by
        obtain ⟨front, back, rfl, rfl⟩ := ih h
        exact ⟨c :: front, back, rfl, by rw [Text.byteLength_cons, Nat.add_assoc]⟩
      rw [startsAfter] at member
      split at member
      · rcases List.mem_cons.mp member with rfl | rest
        · exact ⟨[c], text, rfl, by simp⟩
        · exact later rest
      · exact later member

/-- Every line starts between two characters, those past the end too. -/
theorem lineStart_boundary (text : List Char) (line : Nat) :
    Text.IsBoundary text ((ofText text).lineStart line) := by
  have split : ∃ front back, text = front ++ back ∧
      (ofText text).lineStart line = Text.byteLength front := by
    rw [lineStart, List.getD_eq_getElem?_getD]
    cases found : (ofText text).starts[max line 1 - 1]? with
    | none => exact ⟨text, [], (List.append_nil text).symm, rfl⟩
    | some n =>
        rcases List.mem_cons.mp (List.mem_of_getElem? found) with rfl | later
        · exact ⟨[], text, rfl, rfl⟩
        · obtain ⟨front, back, whole, rfl⟩ := mem_startsAfter later
          exact ⟨front, back, whole, Nat.zero_add _⟩
  obtain ⟨front, back, whole, start⟩ := split
  rw [start, Text.IsBoundary, whole, Text.dropBytes?_append]
  rfl

end LineIndex

end ScriptLens
