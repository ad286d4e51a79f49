import ScriptLens.LineIndex
import ScriptLens.Proofs.Scan.Cutting
import ScriptLens.Proofs.Scan.Quotes
import ScriptLens.Proofs.Spans.Tree
import Mathlib.Data.List.GetD
import Mathlib.Data.List.Induction

/-!
Places are the same however they are found: counted on by the scanner, walked to from the start of
the script, or looked up in the table of line starts. The table is cut at an offset where the text
is: the entries up to the offset are those of the text before it, and the last of them begins the
line on which that text ends.
-/

namespace ScriptLens

/-- A text is whole lines and the beginning of a line. -/
theorem exists_wholeLines (text : List Char) :
    ∃ lines lead, text = lines ++ lead ∧ WholeLines lines ∧ '\n' ∉ lead := by
  induction text using List.reverseRecOn with
  | nil => exact ⟨[], [], rfl, wholeLines_nil, List.not_mem_nil⟩
  | append_singleton text c ih =>
      by_cases feed : c = '\n'
      · refine ⟨text ++ [c], [], (List.append_nil _).symm, ?_, List.not_mem_nil⟩
        rw [feed]
        exact wholeLines_append [] text
      · obtain ⟨lines, lead, rfl, whole, free⟩ := ih
        refine ⟨lines, lead ++ [c], List.append_assoc _ _ _, whole, ?_⟩
        simpa [free] using Ne.symm feed

namespace LineIndex

theorem startsAfter_append (offset : Nat) (a b : List Char) : startsAfter offset (a ++ b) =
    startsAfter offset a ++ startsAfter (offset + Text.byteLength a) b := by
  induction a generalizing offset with
  | nil => rfl
  | cons c a ih =>
      rw [List.cons_append, startsAfter, startsAfter, ih, Text.byteLength_cons, Nat.add_assoc]
      split <;> rfl

/-- There is one line start for each line feed. -/
theorem length_startsAfter (offset : Nat) (text : List Char) :
    (startsAfter offset text).length = text.count '\n' := by
  induction text generalizing offset with
  | nil => rfl
  | cons c text ih =>
      rw [startsAfter, List.count_cons]
      split
      · next feed =>
          rw [List.length_cons, ih, feed]
          rfl
      · next other => simp [ih, other]

theorem startsAfter_bounds {offset n : Nat} {text : List Char}
    (member : n ∈ startsAfter offset text) : offset < n ∧ n ≤ offset + Text.byteLength text := by
  induction text generalizing offset with
  | nil => cases member
  | cons c text ih =>
      have size := c.utf8Size_pos
      rw [startsAfter] at member
      rw [Text.byteLength_cons]
      have later (h : n ∈ startsAfter (offset + c.utf8Size) text) :
          offset < n ∧ n ≤ offset + (c.utf8Size + Text.byteLength text) := by
        have bounds := ih h
        omega
      split at member
      · rcases List.mem_cons.mp member with rfl | rest
        · omega
        · exact later rest
      · exact later member

/-- The last line start of whole lines is their end. -/
theorem lastStart {lines : List Char} (whole : WholeLines lines) :
    (0 :: startsAfter 0 lines).getD (lines.count '\n') 0 = Text.byteLength lines := by
  cases last : lines.getLast? with
  | none =>
      rw [List.getLast?_eq_none_iff.mp last]
      rfl
  | some c =>
      obtain ⟨front, rfl⟩ := List.getLast?_eq_some_iff.mp last
      have feed : c = '\n' := whole c last
      have starts : startsAfter 0 (front ++ [c]) =
          startsAfter 0 front ++ [Text.byteLength (front ++ [c])] := by
        rw [startsAfter_append, startsAfter, if_pos feed, Text.byteLength_append,
          Text.byteLength_cons, Text.byteLength_nil]
        simp [startsAfter]
      have count : (front ++ [c]).count '\n' = (startsAfter 0 front).length + 1 := by
        rw [List.count_append, length_startsAfter, feed]
        rfl
      rw [starts, count, List.getD_cons_succ]
      simp

/-- The line starts up to the end of a part of the text are those of that part. -/
theorem starts_upTo (front rest : List Char) :
    (ofText (front ++ rest)).starts.takeWhile (· ≤ Text.byteLength front) =
    0 :: startsAfter 0 front := by
  have inside : ∀ n ∈ 0 :: startsAfter 0 front, decide (n ≤ Text.byteLength front) = true := by
    intro n member
    rcases List.mem_cons.mp member with rfl | later
    · exact decide_eq_true (Nat.zero_le _)
    · have bounds := startsAfter_bounds later
      exact decide_eq_true (by omega)
  have outside :
      (startsAfter (Text.byteLength front) rest).takeWhile (· ≤ Text.byteLength front) = [] := by
    cases starts : startsAfter (Text.byteLength front) rest with
    | nil => rfl
    | cons n more =>
        have bounds := startsAfter_bounds
          (starts ▸ List.mem_cons_self : n ∈ startsAfter (Text.byteLength front) rest)
        exact List.takeWhile_cons_of_neg (by simpa using bounds.1)
  have split : (ofText (front ++ rest)).starts =
      (0 :: startsAfter 0 front) ++ startsAfter (Text.byteLength front) rest := by
    rw [ofText, startsAfter_append, Nat.zero_add]
    rfl
  rw [split, List.takeWhile_append_of_pos inside, outside, List.append_nil]

/-- What the look-up of an offset finds: so many lines above, and on its line the characters in
front of it. -/
structure Reaches (index : LineIndex) (offset above : Nat) (lead : List Char) : Prop where
  inside : offset ≤ index.size
  starts : (index.starts.takeWhile (· ≤ offset)).length = above + 1
  line : Text.slice? index.text (index.starts.getD above 0) offset = some lead

theorem Reaches.position {index : LineIndex} {offset above : Nat} {lead : List Char}
    (h : index.Reaches offset above lead) :
    index.position offset = ⟨above + 1, lead.length + 1, offset⟩ := by
  rw [LineIndex.position, Nat.min_eq_left h.inside, h.starts, Nat.add_sub_cancel, h.line,
    Option.getD_some]

/-- The offset behind the first characters of a text reaches the line on which they end. -/
theorem reaches_after (front rest : List Char) : ∃ lines lead, front = lines ++ lead ∧
    (ofText (front ++ rest)).Reaches (Position.start.after front).offset (lines.count '\n') lead ∧
    Position.start.after front =
      ⟨lines.count '\n' + 1, lead.length + 1, (Position.start.after front).offset⟩ := by
  obtain ⟨lines, lead, rfl, whole, free⟩ := exists_wholeLines front
  have noFeed : lead.count '\n' = 0 := List.count_eq_zero.mpr free
  have place : Position.start.after (lines ++ lead) =
      ⟨lines.count '\n' + 1, lead.length + 1, Text.byteLength (lines ++ lead)⟩ := by
    rw [Position.after_append, whole.start_after, Position.after_of_notMem_newline free,
      Position.behind, Text.byteLength_append]
    simp [Position.start, Nat.add_comm]
  have found : (ofText (lines ++ lead ++ rest)).starts.getD (lines.count '\n') 0 =
      Text.byteLength lines := by
    have known := lastStart whole
    have within : lines.count '\n' < (0 :: startsAfter 0 lines).length := by
      rw [List.length_cons, length_startsAfter]
      omega
    rw [ofText, List.append_assoc, startsAfter_append, ← List.cons_append,
      List.getD_append _ _ _ _ within]
    exact known
  refine ⟨lines, lead, rfl, ⟨?_, ?_, ?_⟩, ?_⟩
  · rw [place, size, ofText, Text.byteLength_append (lines ++ lead) rest]
    exact Nat.le_add_right _ _
  · rw [place, starts_upTo, List.length_cons, length_startsAfter, List.count_append,
      noFeed, Nat.add_zero]
  · rw [found, place]
    exact Text.slice?_of_eq (List.append_assoc _ _ _) rfl (Text.byteLength_append _ _)
  · rw [place]

/-- The place behind the first characters of a text is found by its offset. -/
theorem position_after (front rest : List Char) :
    (ofText (front ++ rest)).position (Position.start.after front).offset =
    Position.start.after front := by
  obtain ⟨_, _, _, reaches, place⟩ := reaches_after front rest
  rw [reaches.position]
  exact place.symm

end LineIndex

/-- A place of the script that both look-ups by offset give back. -/
structure Position.Located (source : String) (p : Position) : Prop where
  walked : Position.ofOffset source p.offset = p
  indexed : (LineIndex.ofSource source).position p.offset = p

theorem Position.located_after {source : String} {front rest : List Char}
    (h : source.toList = front ++ rest) : (Position.start.after front).Located source := by
  refine ⟨Position.ofOffset_after h, ?_⟩
  rw [LineIndex.ofSource, h]
  exact LineIndex.position_after front rest

/-- The tokens of a scan, with or without a fault, tile what was read before it stopped. -/
theorem lineTokens_tiled (source : String) :
    ∃ read rest, source.toList = read ++ rest ∧ Tiled .start read (lineTokens source) := by
  rw [lineTokens_eq]
  cases fault : (Scanner.initial.run source.toList).2 with
  | none =>
      have holds := Scanner.initial_holds.run source.toList fault
      exact ⟨source.toList, [], (List.append_nil _).symm, holds.tiled⟩
  | some e =>
      obtain ⟨before, behind, text, _, _, clean, _, held⟩ := Scanner.run_open fault
      have holds := Scanner.initial_holds.run before clean
      exact ⟨before, '"' :: behind, text, held ▸ holds.tiled⟩

/-- The tokens of a scan, the end mark too, start in order. -/
theorem scan_starts (source : String) : (scan source).tokens.Pairwise fun a b =>
    a.start.offset ≤ b.start.offset := by
  obtain ⟨read, rest, text, tiled⟩ := lineTokens_tiled source
  have wide : ∀ t ∈ lineTokens source, t.start.offset ≤ t.stop.offset := by
    intro t member
    obtain ⟨_, _, _, _, covers⟩ := tiled.place member
    exact Nat.le_of_lt covers.start_lt_stop
  rw [scan_tokens, List.pairwise_append]
  refine ⟨tiled.ordered.imp_of_mem fun first _ apart => Nat.le_trans (wide _ first) apart,
    List.pairwise_singleton _ _, fun t member u last => ?_⟩
  have stop := tiled.stop_le member
  rw [List.mem_singleton.mp last, text, Position.after_append, Position.after_offset _ rest]
  exact Nat.le_trans (wide t member) (Nat.le_trans stop (Nat.le_add_right _ _))

/-- Every token of a scan begins and ends at places that its offsets alone determine, hotkeys,
tokens behind strings over several lines and the end mark included; so does the fault that stops a
scan. -/
theorem tokens_located (source : String) :
    (∀ t ∈ (scan source).tokens, t.start.Located source ∧ t.stop.Located source) ∧
    ∀ e, (scan source).fault = some e → e.position.Located source := by
  constructor
  · intro t member
    rw [scan_tokens] at member
    rcases List.mem_append.mp member with inside | last
    · obtain ⟨read, rest, text, tiled⟩ := lineTokens_tiled source
      obtain ⟨before, body, behind, parts, covers⟩ := tiled.place inside
      have first : source.toList = before ++ (body ++ (behind ++ rest)) := by simp [text, parts]
      have last : source.toList = before ++ body ++ (behind ++ rest) := by simp [text, parts]
      rw [covers.start, covers.stop, ← Position.after_append]
      exact ⟨Position.located_after first, Position.located_after last⟩
    · rw [List.mem_singleton.mp last]
      have ends := Position.located_after (List.append_nil source.toList).symm
      exact ⟨ends, ends⟩
  · intro e fault
    obtain ⟨before, behind, text, _, _, _, place, _⟩ := Scanner.run_open fault
    rw [place]
    exact Scanner.run_here _ _ ▸ Position.located_after text

/-- A hotkey behind a string over two lines, and a quote that stays open. -/
theorem tokens_located_hotkey : ∃ t ∈ (scan "s := \"é\n\" ^b::f(\"").tokens, t.kind = .hotkey ∧
    t.start = ⟨2, 3, 11⟩ ∧
    t.start.Located "s := \"é\n\" ^b::f(\"" ∧ t.stop.Located "s := \"é\n\" ^b::f(\"" ∧
    ∃ e, (scan "s := \"é\n\" ^b::f(\"").fault = some e ∧ e.position = ⟨2, 9, 17⟩ ∧
      e.position.Located "s := \"é\n\" ^b::f(\"" := by
  have member : ⟨.hotkey, "^b::", ⟨2, 3, 11⟩, ⟨2, 7, 15⟩⟩ ∈
    (scan "s := \"é\n\" ^b::f(\"").tokens := by decide +kernel
  have fault : (scan "s := \"é\n\" ^b::f(\"").fault =
    some (.unterminatedString ⟨2, 9, 17⟩) := by decide +kernel
  have located := tokens_located "s := \"é\n\" ^b::f(\""
  exact ⟨_, member, rfl, rfl, (located.1 _ member).1, (located.1 _ member).2, _, fault, rfl,
    located.2 _ fault⟩

end ScriptLens
