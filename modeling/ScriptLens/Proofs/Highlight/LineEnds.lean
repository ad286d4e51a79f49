import ScriptLens.Proofs.Scan.Hotkeys
import ScriptLens.Proofs.Text.Places

/-!
Stretches and the ends of their lines. A carriage return right before a line feed ends the line with
it. A string over several lines leaves it out, and no other token ends with one, but a comment reads
on to the line feed: on a line that ends so it is shown one character too far.
-/

namespace ScriptLens

theorem WholeLines.ends {lines : List Char} (whole : WholeLines lines) (nonempty : lines ≠ []) :
    ∃ front, lines = front ++ ['\n'] := by
  obtain ⟨front, last, rfl⟩ := (List.eq_nil_or_concat lines).resolve_left nonempty
  exact ⟨front, by rw [List.concat_eq_append, whole last (by simp)]⟩

namespace Text

/-- The lines of a text without their ends: a line feed, with a carriage return right before it if
there is one. -/
def lineBodies : List Char → List (List Char)
  | [] => [[]]
  | '\n' :: text => [] :: lineBodies text
  | '\r' :: '\n' :: text => [] :: lineBodies text
  | c :: text =>
    match lineBodies text with
    | [] => [[c]]
    | line :: rest => (c :: line) :: rest

/-- A carriage return and the line feed right behind it are parted. -/
def Parts (part back : List Char) : Prop := part.getLast? = some '\r' ∧ back.head? = some '\n'

theorem stripReturn_of_last {line : List Char} (last : line.getLast? ≠ some '\r') :
    stripReturn line = line :=
  if_neg last

theorem stripReturn_return (line : List Char) : stripReturn (line ++ ['\r']) = line := by
  rw [stripReturn, List.getLast?_concat, if_pos rfl, List.dropLast_concat]

/-- Only the end of a line is looked at. -/
theorem stripReturn_behind (front : List Char) {line : List Char} (nonempty : line ≠ []) :
    stripReturn (front ++ line) = front ++ stripReturn line := by
  rw [stripReturn, stripReturn, List.getLast?_append_of_ne_nil _ nonempty,
    List.dropLast_append_of_ne_nil nonempty]
  split <;> rfl

theorem lineBodies_line {line : List Char} (free : '\n' ∉ line) : lineBodies line = [line] := by
  induction line with
  | nil => rfl
  | cons c line ih =>
      rw [List.mem_cons, not_or] at free
      rw [lineBodies, ih free.2]
      · exact fun feed => free.1 feed.symm
      · rintro text _ rfl
        exact free.2 List.mem_cons_self

theorem lineBodies_feed (line rest : List Char) (free : '\n' ∉ line) :
    lineBodies (line ++ '\n' :: rest) = stripReturn line :: lineBodies rest := by
  induction line with
  | nil => rfl
  | cons c line ih =>
      rw [List.mem_cons, not_or] at free
      cases line with
      | nil =>
          by_cases ret : c = '\r'
          · subst ret
            rfl
          · rw [stripReturn_of_last (by simpa using ret), List.cons_append, List.nil_append,
              lineBodies, lineBodies]
            · exact fun feed => free.1 feed.symm
            · exact fun _ same _ => ret same
      | cons d line =>
          have inner : stripReturn (c :: d :: line) = c :: stripReturn (d :: line) :=
            stripReturn_behind [c] (List.cons_ne_nil d line)
          rw [List.cons_append, lineBodies, ih free.2, inner]
          · exact fun feed => free.1 feed.symm
          · intro text _ next
            exact free.2 (List.mem_cons.mpr (.inl (List.cons.inj next).1.symm))

/-- What reads a text line by line finds a line behind as many others as there are line feeds. -/
theorem getElem?_wholeLines {read : List Char → List (List Char)} {cut : List Char → List Char}
    (step : ∀ line rest, '\n' ∉ line → read (line ++ '\n' :: rest) = cut line :: read rest)
    {lines : List Char} (whole : WholeLines lines) (text : List Char) :
    (read (lines ++ text))[lines.count '\n']? = (read text)[0]? := by
  -- by induction on the length of the lines: the first one and its line feed come off
  induction size : lines.length using Nat.strong_induction_on generalizing lines with
  | _ n ih =>
      by_cases feed : '\n' ∈ lines
      · obtain ⟨first, rest, rfl, free⟩ := List.eq_append_cons_of_mem feed
        have whole' : WholeLines rest := by
          intro c last
          refine whole c ?_
          rw [List.getLast?_append, List.getLast?_cons, last]
          rfl
        have shorter : rest.length < n := by
          rw [← size, List.length_append, List.length_cons]
          omega
        rw [List.append_assoc, List.cons_append, step first _ free, List.count_append,
          List.count_eq_zero.mpr free, Nat.zero_add,
          List.count_cons_self, List.getElem?_cons_succ, ih _ shorter whole' rfl]
      · have empty : lines = [] := by
          by_contra nonempty
          obtain ⟨front, rfl⟩ := whole.ends nonempty
          exact feed (by simp)
        rw [empty]
        rfl

/-- A part of a text within one line: the line holds it with all that stands before it there, or all
but the carriage return that is parted from its line feed. -/
structure Within (text part back : List Char) (n : Nat) (lead line : List Char) : Prop where
  found : (lineBodies text)[n]? = some line
  reaches : lead ++ part <+: line ∧ ¬Parts part back ∨ lead ++ part = line ++ ['\r'] ∧
    Parts part back
  stops : (∀ d ∈ back.head?, d = '\n') → (splitLines text)[n]? = some (lead ++ part)

theorem exists_within_first {lead part : List Char} (back : List Char) (free : '\n' ∉ lead ++ part)
    (nonempty : part ≠ []) : ∃ line, Within (lead ++ (part ++ back)) part back 0 lead line := by
  rw [← List.append_assoc]
  by_cases feed : '\n' ∈ back
  · obtain ⟨gap, rest, rfl, clean⟩ := List.eq_append_cons_of_mem feed
    have whole :
      lead ++ part ++ (gap ++ '\n' :: rest) = (lead ++ part ++ gap) ++ '\n' :: rest := by simp
    have free' : '\n' ∉ lead ++ part ++ gap := by
      rw [List.mem_append, not_or]
      exact ⟨free, clean⟩
    refine ⟨stripReturn (lead ++ part ++ gap), by rw [whole, lineBodies_feed _ _ free']; rfl, ?_,
      fun stops => ?_⟩
    · cases gap with
      | nil =>
          -- the line feed stands right behind the part
          rw [List.append_nil, stripReturn_behind lead nonempty]
          by_cases last : part.getLast? = some '\r'
          · obtain ⟨front, rfl⟩ := List.getLast?_eq_some_iff.mp last
            rw [stripReturn_return, List.append_assoc]
            exact .inr ⟨rfl, last, rfl⟩
          · rw [stripReturn_of_last last]
            exact .inl ⟨List.prefix_rfl, fun parts => last parts.1⟩
      | cons d gap =>
          refine .inl ⟨?_, fun parts => ?_⟩
          · rw [stripReturn_behind _ (List.cons_ne_nil d gap)]
            exact List.prefix_append _ _
          · exact clean (List.mem_cons.mpr (.inl (Option.some.inj parts.2).symm))
    · cases gap with
      | nil =>
          rw [whole, splitLines_feed free', List.append_nil]
          rfl
      | cons d gap => exact absurd (List.mem_cons.mpr (.inl (stops d rfl).symm)) clean
  · have free' : '\n' ∉ lead ++ part ++ back := by
      rw [List.mem_append, not_or]
      exact ⟨free, feed⟩
    refine ⟨lead ++ part ++ back, by rw [lineBodies_line free']; rfl, ?_, fun stops => ?_⟩
    · exact .inl ⟨List.prefix_append _ _, fun parts => feed (List.mem_of_head? parts.2)⟩
    · cases back with
      | nil =>
          rw [splitLines_line free', List.append_nil]
          rfl
      | cons d back => exact absurd (List.mem_cons.mpr (.inl (stops d rfl).symm)) feed

theorem exists_within {front part : List Char} (back : List Char) (free : '\n' ∉ part)
    (nonempty : part ≠ []) : ∃ lead line, (Position.start.after front).column = lead.length + 1 ∧
      Within (front ++ (part ++ back)) part back (front.count '\n') lead line := by
  obtain ⟨lines, lead, rfl, whole, before⟩ := exists_wholeLines front
  have count : (lines ++ lead).count '\n' = lines.count '\n' := by
    rw [List.count_append, List.count_eq_zero.mpr before, Nat.add_zero]
  have free' : '\n' ∉ lead ++ part := by
    rw [List.mem_append, not_or]
    exact ⟨before, free⟩
  obtain ⟨line, first⟩ := exists_within_first back free' nonempty
  have step : ∀ line rest, '\n' ∉ line →
      splitLines (line ++ '\n' :: rest) = id line :: splitLines rest :=
    fun _ rest free => splitLines_feed free rest
  refine ⟨lead, line, ?_, ?_, first.reaches, fun stops => ?_⟩
  · rw [Position.after_append, Position.after_of_notMem_newline before, whole.start_after]
    exact Nat.add_comm 1 lead.length
  · rw [count, List.append_assoc, getElem?_wholeLines lineBodies_feed whole, first.found]
  · rw [count, List.append_assoc, getElem?_wholeLines step whole, first.stops stops]

end Text

namespace Lexeme

/-- Only a blank and a comment may end with a carriage return. -/
theorem getLast?_ne_return {c : Char} {rest : List Char} {k : Kind}
    (shape : (read c rest).shape = .token k)
    (comment : k ≠ .comment) : (read c rest).text.getLast? ≠ some '\r' := by
  by_cases quote : c = '"'
  · subst quote
    obtain ⟨_, inner, text, _⟩ := read_quote (by rw [shape]; simp)
    rw [text, ← List.cons_append, List.getLast?_concat]
    decide
  · have semicolon : c ≠ ';' := by
      rintro rfl
      exact comment (Shape.token.inj (shape.symm.trans (read_comment rest).1))
    obtain ⟨tail, text, inside⟩ := read_tailed semicolon quote rest
    rw [text]
    intro last
    rcases List.mem_cons.mp (List.mem_of_getLast? last) with rfl | later
    · cases shape
    · exact absurd (inside _ later) (by decide)

end Lexeme

namespace Token

variable {source : String} {t : Token} {front body back : List Char}

/-- A hotkey ends with its colon pair. -/
theorem getLast?_hotkey (member : t ∈ lineTokens source) (kind : t.kind = .hotkey)
    (split : source.toList = front ++ (body ++ back))
    (covers : t.Covers (Position.start.after front) body) : body.getLast? = some ':' := by
  obtain ⟨earlier, later, whole⟩ := List.append_of_mem member
  obtain ⟨lines, lead, gap, trigger, behind, split', claims⟩ :=
    (lineTokens_claim source).claims earlier t later whole kind
  have claimed : source.toList = (lines ++ (lead ++ (gap ++ trigger)) ++ [':', ':']) ++
    behind := by simp [split']
  have stop := congrArg Position.offset (covers.stop.symm.trans claims.stop)
  rw [← Position.after_append, ← Position.after_append, Position.after_offset,
    Position.after_offset] at stop
  rw [← List.append_assoc] at split
  obtain ⟨same, _⟩ :=
    Text.append_inj_of_byteLength (split.symm.trans claimed) (Nat.add_left_cancel stop)
  have last := congrArg List.getLast? same
  rw [List.getLast?_append_of_ne_nil front covers.nonempty] at last
  rw [last]
  simp

/-- No token but a comment ends with a carriage return. -/
theorem getLast?_ne_return (member : t ∈ lineTokens source) (comment : t.kind ≠ .comment)
    (split : source.toList = front ++ (body ++ back))
    (covers : t.Covers (Position.start.after front) body) : body.getLast? ≠ some '\r' := by
  have origin := lineTokens_origin source t member
  rw [split] at origin
  cases origin.reads covers with
  | lexeme ahead read =>
      have last := Lexeme.getLast?_ne_return (congrArg Lexeme.shape read) comment
      rw [read] at last
      exact last
  | hotkey kind _ =>
      rw [getLast?_hotkey member kind split covers]
      decide

end Token

namespace Highlight

theorem mem_ofTokens {source : List Char} {before ts : List Token} {h : Highlight}
    (member : h ∈ ofTokens source before ts) :
    ∃ earlier t later, t ∈ ts ∧ h ∈ ofToken source earlier t later := by
  induction ts generalizing before with
  | nil => cases member
  | cons t ts ih =>
      rcases List.mem_append.mp member with here | below
      · exact ⟨before, t, ts, List.mem_cons_self, here⟩
      · obtain ⟨earlier, u, later, inside, shown⟩ := ih below
        exact ⟨earlier, u, later, List.mem_cons_of_mem t inside, shown⟩

theorem classifyIdentifier_ne_comment (before : List Token) (t : Token) (after : List Token) :
    (classifyIdentifier before t after).1 ≠ .comment := by
  unfold classifyIdentifier
  dsimp only
  split
  · split <;> decide
  split
  · simp
  repeat (split; decide)
  decide

/-- Comments and nothing else are shown as comments. -/
theorem classify?_comment {before after : List Token} {t : Token} {type : HighlightType}
    {modifiers : List HighlightModifier}
    (shown : classify? before t after = some (type, modifiers)) :
    type = .comment ↔ t.kind = .comment := by
  by_cases comment : t.kind = .comment
  · rw [classify?, comment] at shown
    exact iff_of_true (congrArg Prod.fst (Option.some.inj shown)).symm comment
  · refine iff_of_false ?_ comment
    rintro rfl
    have identifier : ∀ {pair}, some (classifyIdentifier before t after) = some pair →
        pair.1 ≠ .comment := by
      rintro pair same
      rw [← Option.some.inj same]
      exact classifyIdentifier_ne_comment before t after
    unfold classify? at shown
    split at shown
    case h_8 kind => exact comment kind
    all_goals try cases shown
    case h_12 => exact identifier shown rfl
    -- only the kinds without a case of their own are left
    split at shown
    · cases shown
    · split at shown <;> cases shown

/-- The stretch stands over a part of the script, and only a comment may end between a carriage
return and its line feed. -/
structure Clear (h : Highlight) (source front body back : List Char) : Prop where
  split : source = front ++ (body ++ back)
  stands : h.Over (Position.start.after front) body
  parts : Text.Parts body back → h.type = .comment
  stops : h.type = .comment → ∀ d ∈ back.head?, d = '\n'

/-- The pieces of a text end before the carriage returns at the ends of its lines. -/
theorem clear_pieces {front body back : List Char} {type : HighlightType}
    {modifiers : List HighlightModifier}
    (string : type ≠ .comment) {line character : Nat}
      (hline : line + 1 = (Position.start.after front).line)
    (hcharacter : character + 1 = (Position.start.after front).column) {h : Highlight}
    (member : h ∈ (Text.lines body).zipIdx.filterMap fun (piece, i) =>
      if piece.isEmpty then none
      else some ⟨line + i, if i = 0 then character else 0, piece.length, type, modifiers⟩) :
    ∃ front' body' back', h.Clear (front ++ (body ++ back)) front' body' back' := by
  obtain ⟨⟨piece, i⟩, inside, made⟩ := List.mem_filterMap.mp member
  have found := List.mem_zipIdx_iff_getElem?.mp inside
  rw [Text.lines, List.getElem?_map] at found
  obtain ⟨l, found, rfl⟩ := Option.map_eq_some_iff.mp found
  dsimp only at made found
  split at made
  · cases made
  next nonempty =>
  cases made
  obtain ⟨first, last, place⟩ := Text.lineAt_of_splitLines found
  obtain ⟨tail, whole, returns⟩ := Text.stripReturn_append l
  have free : '\n' ∉ Text.stripReturn l := fun member =>
    place.free (whole ▸ List.mem_append_left tail member)
  have line := hline ▸ Position.after_line (Position.start.after front) first
  have number := place.number
  refine ⟨front ++ first, Text.stripReturn l, tail ++ (last ++ back),
    ⟨?_, ⟨?_, free, ?_, ?_, rfl⟩, ?_, ?_⟩⟩
  · rw [place.split]
    conv_lhs => rw [whole]
    simp only [List.append_assoc]
  · exact fun empty => nonempty (List.isEmpty_iff.mpr empty)
  · rw [Position.after_append]
    dsimp only
    omega
  · rw [Position.after_append]
    by_cases start : first = []
    · subst start
      have zero : i = 0 := Nat.succ.inj number
      rw [if_pos zero]
      exact hcharacter
    · obtain ⟨before, rfl⟩ := place.whole.ends start
      have later : i ≠ 0 := by
        rw [List.count_append, List.count_singleton_self] at number
        omega
      rw [if_neg later, Position.after_append]
      rfl
  · rintro ⟨ends, next⟩
    exfalso
    by_cases ret : l.getLast? = some '\r'
    · obtain ⟨inner, rfl⟩ := List.getLast?_eq_some_iff.mp ret
      rw [Text.stripReturn_return] at whole
      rw [← List.append_cancel_left whole] at next
      cases next
    · rw [Text.stripReturn_of_last ret] at ends
      exact ret ends
  · exact fun comment => absurd comment string

/-- Every stretch of a token is clear. -/
theorem clear_token {source : String} {t : Token} (member : t ∈ lineTokens source)
    {earlier later : List Token} {h : Highlight}
    (shown : h ∈ ofToken source.toList earlier t later) :
    ∃ front body back, h.Clear source.toList front body back := by
  obtain ⟨front, body, back, split, covers, reads⟩ := lineTokens_origin source t member
  have line : t.start.line - 1 + 1 = (Position.start.after front).line := by
    rw [covers.start]
    exact Nat.sub_add_cancel (Position.after_pos front).1
  have column : t.start.column - 1 + 1 = (Position.start.after front).column := by
    rw [covers.start]
    exact Nat.sub_add_cancel (Position.after_pos front).2
  have cut : Text.slice? source.toList t.start.offset t.stop.offset = some body := by
    rw [split]
    exact covers.slice? (by simp)
  have down := Position.after_line (Position.start.after front) body
  rw [← covers.stop, ← covers.start] at down
  unfold ofToken at shown
  split at shown
  · cases shown
  next type modifiers found =>
  have isComment := classify?_comment found
  split at shown
  · next lines =>
      rw [pieces, cut, Option.getD_some] at shown
      have string : type ≠ .comment := by
        intro comment
        rw [List.count_eq_zero.mpr (reads.comment (isComment.mp comment)).2.1] at down
        omega
      rw [split]
      exact clear_pieces string line column shown
  · next oneLine =>
      cases List.mem_singleton.mp shown
      have free : '\n' ∉ body := by
        rw [← List.count_eq_zero]
        omega
      have length : t.charLength source.toList = body.length := by rw [Token.charLength, cut]
      refine ⟨front, body, back, split, ⟨covers.nonempty, free, line, column, length⟩,
        fun parts => ?_, fun comment => ?_⟩
      · by_contra other
        exact Token.getLast?_ne_return member (other ∘ isComment.mpr) split covers parts.1
      · exact (reads.comment (isComment.mp comment)).2.2

theorem clear_source {source : String} {h : Highlight} (shown : h ∈ ofSource source) :
    ∃ front body back, h.Clear source.toList front body back := by
  rw [ofSource, scan_tokens] at shown
  obtain ⟨earlier, t, later, member, here⟩ := mem_ofTokens shown
  rcases List.mem_append.mp member with token | final
  · exact clear_token token here
  · cases List.mem_singleton.mp final
    rw [ofToken, classify?] at here
    cases here

end Highlight

/-- No stretch runs past its line, but a comment on a line that ends with a carriage return and a
line feed: that one always runs one character past it, over the carriage return. -/
theorem highlights_within_lines {source : String} {h : Highlight}
    (shown : h ∈ Highlight.ofSource source) :
    ∃ line, (Text.lineBodies source.toList)[h.line]? = some line ∧
      if h.type = .comment ∧ (Text.splitLines source.toList)[h.line]? = some (line ++ ['\r']) then
        h.character + h.length = line.length + 1
      else h.character + h.length ≤ line.length := by
  obtain ⟨front, body, back, split, stands, parts, stops⟩ := Highlight.clear_source shown
  obtain ⟨lead, line, column, within⟩ := Text.exists_within back stands.free stands.nonempty
  rw [← split] at within
  have number : h.line = front.count '\n' := by
    have here := stands.line
    rw [Position.after_line, Position.start] at here
    dsimp only at here
    omega
  have reach : h.character + h.length = (lead ++ body).length := by
    rw [stands.length, List.length_append, Nat.succ.inj (stands.character.trans column)]
  rw [number, reach]
  refine ⟨line, within.found, ?_⟩
  rcases within.reaches with ⟨inside, whole⟩ | ⟨past, parted⟩
  · rw [if_neg]
    · exact inside.length_le
    · rintro ⟨comment, returns⟩
      have same := (within.stops (stops comment)).symm.trans returns
      have shorter := inside.length_le
      rw [Option.some.inj same, List.length_append, List.length_singleton] at shorter
      omega
  · have comment := parts parted
    rw [if_pos ⟨comment, past ▸ within.stops (stops comment)⟩, past, List.length_append,
      List.length_singleton]

theorem highlights_within_lines_comment :
    (⟨0, 0, 4, .comment, []⟩ : Highlight) ∈ Highlight.ofSource "; c\r\nx" ∧
    ∃ line, (Text.lineBodies "; c\r\nx".toList)[0]? = some line ∧
      if HighlightType.comment = .comment ∧
        (Text.splitLines "; c\r\nx".toList)[0]? = some (line ++ ['\r']) then
        0 + 4 = line.length + 1
      else 0 + 4 ≤ line.length := by
  have shown :
    (⟨0, 0, 4, .comment, []⟩ : Highlight) ∈ Highlight.ofSource "; c\r\nx" := by decide +kernel
  exact ⟨shown, highlights_within_lines shown⟩

/-- A comment of three characters before a carriage return and a line feed is shown with four. -/
theorem comment_past_line : ¬∀ source h, h ∈ Highlight.ofSource source →
    ∀ line, (Text.lineBodies source.toList)[h.line]? = some line →
    h.character + h.length ≤ line.length := by
  intro within
  have four := within "; c\r\nx" ⟨0, 0, 4, .comment, []⟩ (by decide +kernel)
    [';', ' ', 'c'] (by decide +kernel)
  exact absurd four (by decide)

end ScriptLens
