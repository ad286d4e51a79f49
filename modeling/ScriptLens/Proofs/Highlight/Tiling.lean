import ScriptLens.Highlight
import ScriptLens.Proofs.Scan.Origins
import Mathlib.Data.List.Pairwise

/-!
The stretches to show tile the script. Each stands over characters of one line, the stretches follow
each other as the tokens do, and between them are blanks and line feeds only. A string over several
lines gives one stretch for each line, without the carriage return at its end, and none for an empty
line.
-/

namespace ScriptLens

namespace Text

/-- A text is cut at a character on one side or the other of a seam. -/
theorem cut_append {a b front back : List Char} {c : Char} (h : a ++ b = front ++ c :: back) :
    (∃ behind, a = front ++ c :: behind) ∨ ∃ before,
    front = a ++ before ∧ b = before ++ c :: back := by
  rcases List.append_eq_append_iff.mp h with ⟨before, whole, rest⟩ | ⟨behind, whole, rest⟩
  · exact .inr ⟨before, whole, rest⟩
  · cases behind with
    | nil => exact .inr ⟨[], by simpa using whole.symm, rest.symm⟩
    | cons d behind =>
        obtain ⟨rfl, _⟩ := List.cons.inj rest
        exact .inl ⟨behind, whole⟩

theorem splitLines_line {line : List Char} (free : '\n' ∉ line) : splitLines line = [line] := by
  induction line with
  | nil => rfl
  | cons c line ih =>
      rw [List.mem_cons, not_or] at free
      rw [splitLines, if_neg (Ne.symm free.1), ih free.2]

theorem splitLines_feed {line : List Char} (free : '\n' ∉ line) (rest : List Char) :
    splitLines (line ++ '\n' :: rest) = line :: splitLines rest := by
  induction line with
  | nil => rfl
  | cons c line ih =>
      rw [List.mem_cons, not_or] at free
      rw [List.cons_append, splitLines, if_neg (Ne.symm free.1), ih free.2]

theorem lines_line {line : List Char} (free : '\n' ∉ line) : lines line = [stripReturn line] := by
  rw [lines, splitLines_line free, List.map_singleton]

theorem lines_feed {line : List Char} (free : '\n' ∉ line) (rest : List Char) :
    lines (line ++ '\n' :: rest) = stripReturn line :: lines rest := by
  rw [lines, splitLines_feed free, List.map_cons, lines]

/-- At most a carriage return comes off a line. -/
theorem stripReturn_append (line : List Char) : ∃ tail, line = stripReturn line ++ tail ∧
    ∀ c ∈ tail, c = '\r' := by
  unfold stripReturn
  split
  · next ends =>
      obtain ⟨front, rfl⟩ := List.getLast?_eq_some_iff.mp ends
      exact ⟨['\r'], by simp, by simp⟩
  · exact ⟨[], by simp, by simp⟩

end Text

namespace Position

/-- Reading order of places: by line, then by column. -/
def UpTo (p q : Position) : Prop := p.line < q.line ∨ p.line = q.line ∧ p.column ≤ q.column

theorem UpTo.trans {p q r : Position} (h : p.UpTo q) (k : q.UpTo r) : p.UpTo r := by
  unfold UpTo at *
  omega

theorem upTo_after (p : Position) (text : List Char) : p.UpTo (p.after text) := by
  induction text generalizing p with
  | nil => exact .inr ⟨rfl, le_rfl⟩
  | cons c text ih =>
      refine UpTo.trans ?_ (ih (p.next c))
      unfold next UpTo
      split <;> simp

theorem column_pos {p : Position} (h : 1 ≤ p.column) (text : List Char) :
    1 ≤ (p.after text).column := by
  induction text generalizing p with
  | nil => exact h
  | cons c text ih =>
      refine ih ?_
      unfold next
      split
      · exact Nat.le_refl 1
      · exact Nat.le_succ_of_le h

/-- Lines and columns count from one. -/
theorem after_pos (text : List Char) :
    1 ≤ (start.after text).line ∧ 1 ≤ (start.after text).column := by
  refine ⟨?_, column_pos (Nat.le_refl 1) text⟩
  rw [after_line]
  exact Nat.le_add_right 1 _

end Position

namespace Highlight

/-- Characters that no stretch has to show. -/
def isDark (c : Char) : Bool := isBlank c || c = '\n'

/-- The stretch covers the character at a place. -/
structure Covers (h : Highlight) (p : Position) : Prop where
  line : h.line + 1 = p.line
  first : h.character + 1 ≤ p.column
  last : p.column ≤ h.character + h.length

/-- The stretch stands over `body`, which starts at `p`. -/
structure Over (h : Highlight) (p : Position) (body : List Char) : Prop where
  nonempty : body ≠ []
  free : '\n' ∉ body
  line : h.line + 1 = p.line
  character : h.character + 1 = p.column
  length : h.length = body.length

/-- Stretches in the order of the script, none of them empty and no two of them over one place. -/
structure InSequence (hs : List Highlight) : Prop where
  nonempty : ∀ h ∈ hs, 1 ≤ h.length
  increasing : hs.Pairwise fun h k => h.line < k.line ∨ h.line = k.line ∧ h.character < k.character
  apart : hs.Pairwise fun h k => ∀ p, ¬(h.Covers p ∧ k.Covers p)

/-- Dark characters and stretches in turn make up a text that starts at a place. -/
inductive Shows : Position → List Char → List Highlight → Prop
  | dark {p gap} : (∀ c ∈ gap, isDark c = true) → Shows p gap []
  | stretch {p gap body rest h hs} : (∀ c ∈ gap, isDark c = true) → h.Over (p.after gap) body →
      Shows ((p.after gap).after body) rest hs → Shows p (gap ++ (body ++ rest)) (h :: hs)

namespace Shows

variable {p : Position} {text : List Char} {hs : List Highlight}

theorem blanks {gap : List Char} (h : ∀ c ∈ gap, isBlank c = true) : Shows p gap [] :=
  .dark fun c member => by rw [isDark, h c member, Bool.true_or]

/-- A line feed is not shown. -/
theorem feed : Shows p ['\n'] [] := .dark (List.all_eq_true.mp rfl)

theorem single {h : Highlight} (stands : h.Over p text) : Shows p text [h] := by
  have nothing : ∀ c ∈ ([] : List Char), isDark c = true := by simp
  simpa using Shows.stretch nothing stands (.dark nothing)

theorem dark_append {gap rest : List Char} (hgap : ∀ c ∈ gap, isDark c = true)
    (h : Shows (p.after gap) rest hs) : Shows p (gap ++ rest) hs := by
  have joined : ∀ more : List Char, (∀ c ∈ more, isDark c = true) → ∀ c ∈ gap ++ more,
      isDark c = true := by
    intro more hmore c member
    rcases List.mem_append.mp member with inGap | inMore
    · exact hgap c inGap
    · exact hmore c inMore
  cases h with
  | dark hrest => exact .dark (joined _ hrest)
  | @stretch _ more body rest h hs hmore stands tail =>
      rw [← List.append_assoc]
      rw [← Position.after_append] at stands
      rw [← Position.after_append p gap more] at tail
      exact .stretch (joined _ hmore) stands tail

theorem append {a b : List Char} {ks : List Highlight} (ha : Shows p a hs)
    (hb : Shows (p.after a) b ks) : Shows p (a ++ b) (hs ++ ks) := by
  induction ha with
  | dark hgap => exact dark_append hgap hb
  | stretch hgap stands tail ih =>
      rw [Position.after_append, Position.after_append] at hb
      have whole := Shows.stretch hgap stands (ih hb)
      simpa only [List.append_assoc, List.cons_append] using whole

/-- Every stretch has a place in the text. -/
theorem place (h : Shows p text hs) {k : Highlight} (member : k ∈ hs) :
    ∃ before body behind, text = before ++ (body ++ behind) ∧ k.Over (p.after before) body := by
  induction h with
  | dark hgap => cases member
  | @stretch p gap body rest h hs hgap stands tail ih =>
      rcases List.mem_cons.mp member with rfl | later
      · exact ⟨gap, body, rest, rfl, stands⟩
      · obtain ⟨before, body', behind, rfl, stands'⟩ := ih later
        refine ⟨gap ++ (body ++ before), body', behind, by simp, ?_⟩
        rw [Position.after_append, Position.after_append]
        exact stands'

/-- A stretch ends before the next one begins. -/
theorem ordered (h : Shows p text hs) : hs.Pairwise fun h k =>
    h.line < k.line ∨ h.line = k.line ∧ h.character + h.length ≤ k.character := by
  induction h with
  | dark hgap => exact .nil
  | @stretch p gap body rest h hs hgap stands tail ih =>
      refine .cons ?_ ih
      intro k member
      obtain ⟨before, body', behind, _, stands'⟩ := tail.place member
      have later := Position.upTo_after ((p.after gap).after body) before
      rw [Position.UpTo, ← stands'.line, ← stands'.character,
        Position.after_of_notMem_newline stands.free] at later
      dsimp only at later
      have line := stands.line
      have character := stands.character
      have length := stands.length
      omega

theorem inSequence (h : Shows p text hs) : InSequence hs := by
  have nonempty : ∀ k ∈ hs, 1 ≤ k.length := by
    intro k member
    obtain ⟨before, body, behind, _, stands⟩ := h.place member
    rw [stands.length]
    exact List.length_pos_iff.mpr stands.nonempty
  refine ⟨nonempty, h.ordered.imp_of_mem ?_, h.ordered.imp ?_⟩
  · intro a b first _ order
    have some := nonempty a first
    omega
  · rintro a b order q ⟨left, right⟩
    have line := left.line
    have last := left.last
    have line' := right.line
    have first' := right.first
    omega

/-- A character that is not dark stands under a stretch. -/
theorem covered (h : Shows p text hs) {front back : List Char} {c : Char}
    (whole : text = front ++ c :: back)
    (shown : isDark c = false) : ∃ k ∈ hs, k.Covers (p.after front) := by
  have light : ∀ gap front behind : List Char, (∀ d ∈ gap, isDark d = true) →
      gap ≠ front ++ c :: behind := by
    rintro gap front behind hgap rfl
    have dark := hgap c (by simp)
    rw [shown] at dark
    cases dark
  induction h generalizing front with
  | dark hgap => exact absurd whole (light _ _ _ hgap)
  | @stretch p gap body rest h hs hgap stands tail ih =>
      rcases Text.cut_append whole with ⟨behind, inGap⟩ | ⟨before, rfl, inRest⟩
      · exact absurd inGap (light _ _ _ hgap)
      rcases Text.cut_append inRest with ⟨behind, rfl⟩ | ⟨before, rfl, later⟩
      · refine ⟨h, List.mem_cons_self, ?_⟩
        have free : '\n' ∉ before := fun member => stands.free (List.mem_append_left _ member)
        have length := stands.length
        have character := stands.character
        rw [List.length_append, List.length_cons] at length
        rw [Position.after_append, Position.after_of_notMem_newline free]
        exact ⟨stands.line, by dsimp only; omega, by dsimp only; omega⟩
      · obtain ⟨k, member, covers⟩ := ih later
        refine ⟨k, List.mem_cons_of_mem h member, ?_⟩
        rw [Position.after_append, Position.after_append]
        exact covers

/-- A character that is not dark stands under one stretch only. -/
theorem coveredOnce (h : Shows p text hs) {front back : List Char} {c : Char}
    (whole : text = front ++ c :: back)
    (shown : isDark c = false) : ∃! k, k ∈ hs ∧ k.Covers (p.after front) := by
  obtain ⟨k, member, covers⟩ := h.covered whole shown
  refine ⟨k, ⟨member, covers⟩, ?_⟩
  rintro other ⟨member', covers'⟩
  by_contra different
  rcases either_of_pairwise h.inSequence.apart member' member different with apart | apart
  · exact apart _ ⟨covers', covers⟩
  · exact apart _ ⟨covers, covers'⟩

/-- Every place under a stretch is that of a character. -/
theorem inside (h : Shows p text hs) {k : Highlight} (member : k ∈ hs) {i : Nat}
    (hi : i < k.length) :
    ∃ front c back, text = front ++ c :: back ∧ k.line + 1 = (p.after front).line ∧
      k.character + 1 + i = (p.after front).column := by
  obtain ⟨before, body, behind, rfl, stands⟩ := h.place member
  have within : i < body.length := stands.length ▸ hi
  have free : '\n' ∉ body.take i := fun inside => stands.free (List.mem_of_mem_take inside)
  refine ⟨before ++ body.take i, body[i], body.drop (i + 1) ++ behind, ?_, ?_, ?_⟩
  · have parts : body = body.take i ++ body[i] :: body.drop (i + 1) := by
      rw [← List.drop_eq_getElem_cons within, List.take_append_drop]
    conv_lhs => rw [parts]
    simp only [List.append_assoc, List.cons_append]
  · rw [Position.after_append, Position.after_of_notMem_newline free]
    exact stands.line
  · rw [Position.after_append, Position.after_of_notMem_newline free, stands.character,
      List.length_take, Nat.min_eq_left (Nat.le_of_lt within)]

end Shows

section Pieces

variable (type : HighlightType) (modifiers : List HighlightModifier)

/-- A line without its carriage return is shown by one stretch, or by none where nothing is left. -/
theorem shows_line {p : Position} {line character : Nat} (hline : line + 1 = p.line)
    (hcharacter : character + 1 = p.column) {text : List Char} (free : '\n' ∉ text) :
    Shows p text (if (Text.stripReturn text).isEmpty then []
      else [⟨line, character, (Text.stripReturn text).length, type, modifiers⟩]) := by
  obtain ⟨tail, whole, returns⟩ := Text.stripReturn_append text
  have dark : ∀ c ∈ tail, isDark c = true := by
    intro c member
    rw [returns c member]
    rfl
  generalize Text.stripReturn text = piece at *
  subst whole
  split
  · next empty =>
      rw [List.isEmpty_iff.mp empty]
      exact .dark (by simpa using dark)
  · next nonempty =>
      have stands : Over ⟨line, character, piece.length, type, modifiers⟩ p piece :=
        ⟨fun empty => nonempty (List.isEmpty_iff.mpr empty),
          fun member => free (List.mem_append_left _ member), hline, hcharacter, rfl⟩
      exact (Shows.single stands).append (.dark dark)

/-- The pieces of a text, line by line: only the first line starts at a column of its own. -/
theorem shows_lines {line character n : Nat} {p : Position} (text : List Char)
    (hline : line + n + 1 = p.line)
    (hcharacter : (if n = 0 then character else 0) + 1 = p.column) :
    Shows p text (((Text.lines text).zipIdx n).filterMap fun (piece, i) =>
      if piece.isEmpty then none
      else some ⟨line + i, if i = 0 then character else 0, piece.length, type, modifiers⟩) := by
  -- by induction on the length of the text: a line and its line feed leave a shorter one
  induction size : text.length using Nat.strongRecOn generalizing text n p with
  | _ length ih =>
      by_cases feed : '\n' ∈ text
      · obtain ⟨front, rest, rfl, free⟩ := List.eq_append_cons_of_mem feed
        have first := shows_line type modifiers hline hcharacter free
        have place :
            (p.after front).after ['\n'] = ⟨p.line + 1, 1, (p.after front).offset + 1⟩ := by
          rw [Position.after_of_notMem_newline free]
          rfl
        have shorter : rest.length < length := by
          rw [← size, List.length_append, List.length_cons]
          omega
        have later := ih _ shorter (n := n + 1) (p := (p.after front).after ['\n']) rest
          (by rw [place]; dsimp only; omega) (by rw [place]; rfl) rfl
        have joined := first.append (Shows.feed.append later)
        rw [Text.lines_feed free, List.zipIdx_cons, List.filterMap_cons]
        dsimp only
        split at joined
        · next empty =>
            rw [if_pos empty]
            exact joined
        · next nonempty =>
            rw [if_neg nonempty]
            exact joined
      · have only := shows_line type modifiers hline hcharacter feed
        rw [Text.lines_line feed, List.zipIdx_singleton, List.filterMap_cons, List.filterMap_nil]
        dsimp only
        split at only
        · next empty =>
            rw [if_pos empty]
            exact only
        · next nonempty =>
            rw [if_neg nonempty]
            exact only

end Pieces

/-- Line breaks and the end mark alone are not shown. -/
theorem classify?_eq_none {before after : List Token} {t : Token}
    (h : classify? before t after = none) : t.kind = .newline ∨ t.kind = .eof := by
  unfold classify? at h
  split at h
  case h_1 kind => exact .inl kind
  case h_2 kind => exact .inr kind
  all_goals try cases h
  -- only the kinds without a case of their own are left
  split at h
  · cases h
  · split at h <;> cases h

/-- The stretches of a token show the characters that it covers. -/
theorem shows_token {front body behind : List Char} {t : Token}
    (covers : t.Covers (Position.start.after front) body)
    (reads : t.Reads body behind) (before after : List Token) :
    Shows (Position.start.after front) body
    (ofToken (front ++ (body ++ behind)) before t after) := by
  have start := covers.start
  have cut : Text.slice? (front ++ (body ++ behind)) t.start.offset t.stop.offset = some body :=
    covers.slice? (by simp)
  have line : t.start.line - 1 + 1 = (Position.start.after front).line := by
    rw [start]
    exact Nat.sub_add_cancel (Position.after_pos front).1
  have column : t.start.column - 1 + 1 = (Position.start.after front).column := by
    rw [start]
    exact Nat.sub_add_cancel (Position.after_pos front).2
  unfold ofToken
  split
  · next hidden =>
      rcases classify?_eq_none hidden with newline | eof
      · rw [reads.newline newline]
        exact .feed
      · exact absurd eof covers.kind
  · next type modifiers shown =>
      split
      · rw [pieces, cut, Option.getD_some]
        exact shows_lines type modifiers (n := 0) body line column
      · next oneLine =>
          have free : '\n' ∉ body := by
            intro member
            have down := Position.after_line (Position.start.after front) body
            have some : 0 < body.count '\n' := List.count_pos_iff.mpr member
            rw [covers.stop, start] at oneLine
            omega
          have length :
            t.charLength (front ++ (body ++ behind)) = body.length := by rw [Token.charLength, cut]
          rw [length]
          exact .single ⟨covers.nonempty, free, line, column, rfl⟩

/-- The stretches of a tiling show its text; the end mark gives none. -/
theorem shows_tiled {front text behind : List Char} {p : Position} {tokens : List Token}
    (tiled : Tiled p text tokens) (place : p = Position.start.after front)
    (origins : ∀ t ∈ tokens, t.Origin (front ++ (text ++ behind)))
    (before : List Token) {last : Token} (closing : last.kind = .eof) :
    Shows p text (ofTokens (front ++ (text ++ behind)) before (tokens ++ [last])) := by
  induction tiled generalizing front before with
  | @blank p gap hgap =>
      have none : ofToken (front ++ (gap ++ behind)) before last [] = [] := by
        rw [ofToken, classify?, closing]
      rw [List.nil_append, ofTokens, ofTokens, none]
      exact .blanks hgap
  | @token p gap body rest t tokens hgap covers tail ih =>
      have whole : front ++ (gap ++ (body ++ rest) ++ behind) =
        (front ++ gap) ++ (body ++ (rest ++ behind)) := by simp
      rw [whole] at origins ⊢
      rw [place, ← Position.after_append] at covers
      have first :=
        shows_token covers ((origins t List.mem_cons_self).reads covers) before (tokens ++ [last])
      have place' : t.stop = Position.start.after (front ++ (gap ++ body)) := by
        rw [covers.stop, ← Position.after_append]
        simp
      have later := ih place'
        (by simpa using fun u member => origins u (List.mem_cons_of_mem t member)) (t :: before)
      rw [List.cons_append, ofTokens]
      rw [covers.stop] at later
      have joined := first.append (by simpa using later)
      rw [Position.after_append, ← place] at joined
      simpa using (Shows.blanks hgap).append joined

theorem shows_read {source : String} {read rest : List Char} (whole : source.toList = read ++ rest)
    (tiled : Tiled .start read (lineTokens source)) : Shows .start read (ofSource source) := by
  have origins := lineTokens_origin source
  rw [whole] at origins
  rw [ofSource, scan_tokens, whole]
  have place : Position.start = Position.start.after [] := rfl
  exact shows_tiled tiled place origins [] rfl

/-- The stretches of a script show what was read of it. -/
theorem shows_source (source : String) :
    ∃ read rest, source.toList = read ++ rest ∧ Shows .start read (ofSource source) := by
  obtain ⟨read, rest, whole, tiled⟩ := lineTokens_tiled source
  exact ⟨read, rest, whole, shows_read whole tiled⟩

/-- All of a script that lexes is shown. -/
theorem shows_lexed {source : String} {tokens : List Token} (lexed : tokenize source = .ok tokens) :
    Shows .start source.toList (ofSource source) := by
  have holds := Scanner.initial_holds.run source.toList (fault_of_tokenize lexed).1
  have tiled := holds.tiled
  rw [List.nil_append] at tiled
  exact shows_read (List.append_nil _).symm (lineTokens_eq source ▸ tiled)

end Highlight

end ScriptLens
