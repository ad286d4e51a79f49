import ScriptLens.Proofs.Padding.Trees
import ScriptLens.Proofs.Print.RoundTrip
import ScriptLens.Proofs.Scan.Joining
import ScriptLens.Proofs.Spans.Script

/-!
Blank lines and lines that hold a comment only. Behind a line break the scanner starts as at the
start of a script, so such lines put in there give line breaks and comments and leave all other
tokens as they are, moved to their new places; the parser then reads the same script.
-/

namespace ScriptLens

open ParseM ScriptLens.Parser

/-- A line, with its line feed, that holds blanks and perhaps a comment. -/
def VoidLine (line : List Char) : Prop :=
  ∃ gap note, line = gap ++ note ++ ['\n'] ∧ (∀ c ∈ gap, isBlank c = true) ∧
    (∀ c ∈ note.head?, c = ';') ∧ '\n' ∉ note

/-- The text, which begins at `offset`, with lines put in directly behind its characters, by the
offset at which a character ends. -/
def insertLines (extra : Nat → List (List Char)) (offset : Nat) : List Char → List Char
  | [] => []
  | c :: text =>
      c :: ((extra (offset + c.utf8Size)).flatten ++ insertLines extra (offset + c.utf8Size) text)

section Insert

variable {extra : Nat → List (List Char)}

theorem insertLines_append (offset : Nat) (a b : List Char) : insertLines extra offset (a ++ b) =
    insertLines extra offset a ++ insertLines extra (offset + Text.byteLength a) b := by
  induction a generalizing offset with
  | nil => rfl
  | cons c a ih =>
      rw [List.cons_append, insertLines, insertLines, ih, Text.byteLength_cons, List.cons_append,
        List.append_assoc, Nat.add_assoc]

theorem insertLines_of_nil {offset : Nat} {text : List Char}
    (none : ∀ n, offset < n → n ≤ offset + Text.byteLength text → extra n = []) :
    insertLines extra offset text = text := by
  induction text generalizing offset with
  | nil => rfl
  | cons c text ih =>
      have size := c.utf8Size_pos
      rw [Text.byteLength_cons] at none
      rw [insertLines, none _ (by omega) (by omega),
        ih fun n low high => none n (by omega) (by omega)]
      rfl

end Insert

/-- The tokens of a text, all but the end mark. -/
def tokensOf (text : List Char) : List Token := (Scanner.initial.run text).1.held

/-- The tokens of a text that the parser reads. -/
def keptTokens (text : List Char) : List Token := (tokensOf text).filter (·.kind != .comment)

/-- A text that can be scanned on its own. -/
def Clean (text : List Char) : Prop := (Scanner.initial.run text).2 = none

theorem Scanner.held_behind (lines : List Char) (older : List Token) (s : Scanner) :
    (s.behind lines older).held = older.reverse ++ s.held.map (Token.behind lines) := by
  simp [held, behind]

section Feed

variable {a : List Char} (clean : Clean a) (b : List Char)
include clean

theorem tokensOf_feed : tokensOf (a ++ '\n' :: b) =
    tokensOf a ++ feedBehind a :: (tokensOf b).map (Token.behind (a ++ ['\n'])) := by
  rw [tokensOf, Scanner.run_initial_feed clean, Scanner.held_behind, List.reverse_cons,
    List.reverse_reverse, List.append_assoc]
  rfl

theorem clean_feed : Clean (a ++ '\n' :: b) ↔ Clean b := by
  rw [Clean, Scanner.run_initial_feed clean]
  exact Option.map_eq_none_iff

theorem keptTokens_feed : keptTokens (a ++ '\n' :: b) =
    keptTokens a ++ feedBehind a :: (keptTokens b).map (Token.behind (a ++ ['\n'])) := by
  have kept (ts : List Token) : (feedBehind a :: ts).filter (·.kind != .comment) =
      feedBehind a :: ts.filter (·.kind != .comment) := rfl
  rw [keptTokens, tokensOf_feed clean, List.filter_append, kept, List.filter_map]
  rfl

end Feed

/-- A text up to its first line break is scanned on its own. -/
theorem Scanner.run_firstFeed {s : Scanner} {text : List Char} (clean : (s.run text).2 = none) :
    (∀ t ∈ (s.run text).1.held, t ∈ s.held ∨ t.kind ≠ .newline) ∨ ∃ a b, text = a ++ '\n' :: b ∧
      (s.run a).2 = none ∧ ∀ t ∈ (s.run a).1.held, t ∈ s.held ∨ t.kind ≠ .newline := by
  fun_induction Scanner.run s text with
  | case1 s => exact .inl fun t member => .inl member
  | case2 s c rest lexeme shape => cases clean
  | case3 s c rest lexeme shape ih =>
      by_cases feed : c = '\n'
      · refine .inr ⟨[], rest, by rw [feed]; rfl, by rw [run_nil], ?_⟩
        rw [run_nil]
        exact fun t member => .inl member
      · have kinds := take_kinds s feed rest
        have later {t : Token} (known : t ∈ (s.take lexeme).held ∨ t.kind ≠ .newline) :
            t ∈ s.held ∨ t.kind ≠ .newline :=
          known.elim (kinds t) .inr
        rcases ih clean with none | ⟨a, b, ends, clean', none⟩
        · exact .inl fun t member => later (none t member)
        · have ran := run_cut (s := s) shape ends
          refine .inr ⟨(Lexeme.read c rest).text ++ a, b, ?_, ?_, ?_⟩
          · rw [List.append_assoc, ← ends, Lexeme.read_append]
          · rw [ran]
            exact clean'
          · rw [ran]
            exact fun t member => later (none t member)

theorem Clean.split {text : List Char} (clean : Clean text) :
    (∀ t ∈ tokensOf text, t.kind ≠ .newline) ∨
    ∃ a b, text = a ++ '\n' :: b ∧ Clean a ∧ ∀ t ∈ tokensOf a, t.kind ≠ .newline := by
  have fresh {t : Token} (known : t ∈ Scanner.initial.held ∨ t.kind ≠ .newline) :
      t.kind ≠ .newline :=
    known.elim (fun member => by cases member) id
  rcases Scanner.run_firstFeed clean with none | ⟨a, b, whole, clean', none⟩
  · exact .inl fun t member => fresh (none t member)
  · exact .inr ⟨a, b, whole, clean', fun t member => fresh (none t member)⟩

theorem Clean.stop_le {text : List Char} (clean : Clean text) {t : Token}
    (member : t ∈ tokensOf text) : t.stop.offset ≤ Text.byteLength text := by
  have holds := Scanner.initial_holds.run text clean
  rw [List.nil_append] at holds
  have bound := holds.tiled.stop_le member
  rwa [Position.after_offset, Position.start_offset, Nat.zero_add] at bound

/-- Blanks and a comment behind them give no token but the comment. -/
theorem Scanner.run_void {gap note : List Char} (blanks : ∀ c ∈ gap, isBlank c = true)
    (comment : ∀ c ∈ note.head?, c = ';') (lineless : '\n' ∉ note) (s : Scanner) :
    (s.run (gap ++ note)).2 = none ∧ ∀ t ∈ (s.run (gap ++ note)).1.held,
    t ∈ s.held ∨ t.kind = .comment := by
  induction gap generalizing s with
  | nil =>
      rw [List.nil_append]
      cases note with
      | nil =>
          rw [run_nil]
          exact ⟨rfl, fun t member => .inl member⟩
      | cons c body =>
          have mark : c = ';' := comment c rfl
          have all : ∀ d ∈ body, (d != '\n') = true := by
            rintro d member
            simpa using fun feed : d = '\n' => lineless (feed ▸ List.mem_cons_of_mem c member)
          have lexeme : Lexeme.read c body = ⟨.token .comment, c :: body, []⟩ := by
            rw [mark]
            change Lexeme.run (fun _ => .token .comment) [';'] (· != '\n') body = _
            rw [Lexeme.run, List.takeWhile_eq_self_iff.mpr all, List.dropWhile_eq_nil_iff.mpr all]
            rfl
          rw [run_lexeme (by rw [lexeme]; simp), lexeme, run_nil]
          refine ⟨rfl, ?_⟩
          intro t member
          rw [take, held_push, List.mem_append, List.mem_singleton] at member
          rcases member with old | rfl
          · exact .inl old
          · exact .inr rfl
  | cons c gap ih =>
      have blank := blanks c List.mem_cons_self
      have lexeme : Lexeme.read c (gap ++ note) = ⟨.blank, [c], gap ++ note⟩ := by
        rw [Lexeme.read, if_pos blank]
      rw [List.cons_append, run_lexeme (by rw [lexeme]; simp), lexeme]
      exact ih (fun d member => blanks d (List.mem_cons_of_mem c member)) _

namespace VoidLine

variable {line : List Char}

/-- A line without code puts one line break in front of what follows it. -/
theorem feeds (void : VoidLine line) (b : List Char) : (Clean (line ++ b) ↔ Clean b) ∧
    ∃ feed : Token, feed.kind = .newline ∧
    keptTokens (line ++ b) = feed :: (keptTokens b).map (Token.behind line) := by
  obtain ⟨gap, note, rfl, blanks, comment, lineless⟩ := void
  obtain ⟨clean, comments⟩ := Scanner.run_void blanks comment lineless Scanner.initial
  have nothing : keptTokens (gap ++ note) = [] := by
    apply List.filter_eq_nil_iff.mpr
    intro t member
    rcases comments t member with old | kind
    · cases old
    · simp [kind]
  have whole : gap ++ note ++ ['\n'] ++ b = gap ++ note ++ '\n' :: b := by simp
  rw [whole]
  refine ⟨clean_feed clean b, feedBehind (gap ++ note), rfl, ?_⟩
  rw [keptTokens_feed clean, nothing]
  rfl

end VoidLine

@[simp] theorem Token.behind_nil (t : Token) : t.behind [] = t := rfl

theorem keptTokens_voids {lines : List (List Char)} (void : ∀ line ∈ lines, VoidLine line)
    (b : List Char) : (Clean (lines.flatten ++ b) ↔ Clean b) ∧ ∃ feeds : List Token,
    (∀ t ∈ feeds, t.kind = .newline) ∧ keptTokens (lines.flatten ++ b) =
      feeds ++ (keptTokens b).map (Token.behind lines.flatten) := by
  induction lines with
  | nil => exact ⟨Iff.rfl, [], by simp, (List.map_id'' Token.behind_nil _).symm⟩
  | cons line lines ih =>
      obtain ⟨clean, feeds, kinds, rest⟩ := ih fun l member =>
        void l (List.mem_cons_of_mem line member)
      obtain ⟨clean', feed, kind, first⟩ :=
        (void line List.mem_cons_self).feeds (lines.flatten ++ b)
      rw [List.flatten_cons, List.append_assoc]
      refine ⟨clean'.trans clean, feed :: feeds.map (Token.behind line), ?_, ?_⟩
      · intro t member
        rcases List.mem_cons.mp member with rfl | later
        · exact kind
        · obtain ⟨u, inside, rfl⟩ := List.mem_map.mp later
          exact kinds u inside
      · rw [first, rest, List.map_append, List.map_map]
        simp [Token.behind_behind, Function.comp_def]

/-- What is left of a line has the text that it has on its own, wherever the line stands. -/
theorem Token.lineText_behind (before after : List Char) {line : List Char} {ts rest : List Token}
    (feedless : ∀ t ∈ ts, t.kind ≠ .newline)
    (inside : ∀ t ∈ ts, t.stop.offset ≤ Text.byteLength line)
    (ends : rest.takeWhile (·.kind != .newline) = []) :
    lineText (before ++ (line ++ after)) (ts.map (behind before) ++ rest) = lineText line ts := by
  have all : ∀ t ∈ ts, (t.kind != .newline) = true := by simpa using feedless
  have all' : ∀ t ∈ ts.map (behind before), (t.kind != .newline) = true := by simpa using feedless
  rw [lineText, lineText, List.takeWhile_append_of_pos all', ends, List.append_nil,
    List.takeWhile_eq_self_iff.mpr all, List.head?_map, List.getLast?_map]
  cases first : ts.head? with
  | none => rfl
  | some a =>
      cases last : ts.getLast? with
      | none => rfl
      | some b =>
          exact congrArg (·.getD [])
            (Text.slice?_inside (inside b (List.mem_of_getLast? last)) before after)

/-- The tokens of a line at two places. -/
theorem Padded.line {before before' line after after' : List Char} {ts rest rest' : List Token}
    (feedless : ∀ t ∈ ts, t.kind ≠ .newline)
    (inside : ∀ t ∈ ts, t.stop.offset ≤ Text.byteLength line)
    (ends : rest.takeWhile (·.kind != .newline) = [])
    (ends' : rest'.takeWhile (·.kind != .newline) = [])
    (h : Padded (before ++ (line ++ after)) (before' ++ (line ++ after')) rest rest') :
    Padded (before ++ (line ++ after)) (before' ++ (line ++ after'))
    (ts.map (Token.behind before) ++ rest) (ts.map (Token.behind before') ++ rest') := by
  induction ts with
  | nil => exact h
  | cons t ts ih =>
      have text := Token.lineText_behind before after feedless inside ends
      have text' := Token.lineText_behind before' after' feedless inside ends'
      refine .token (feedless t List.mem_cons_self) rfl rfl (text'.trans text.symm) (ih ?_ ?_)
      · exact fun u member => feedless u (List.mem_cons_of_mem t member)
      · exact fun u member => inside u (List.mem_cons_of_mem t member)

/-- Behind a text without line breaks, a line break ends at the next offset or belongs to what
follows. -/
theorem feed_stop {line rest : List Char} (clean : Clean line)
    (feedless : ∀ t ∈ tokensOf line, t.kind ≠ .newline)
    {t : Token} (member : t ∈ tokensOf (line ++ '\n' :: rest)) (kind : t.kind = .newline) :
    t.stop.offset = Text.byteLength (line ++ ['\n']) ∨ ∃ u ∈ tokensOf rest,
      u.kind = .newline ∧ t.stop.offset = Text.byteLength (line ++ ['\n']) + u.stop.offset := by
  rw [tokensOf_feed clean] at member
  rcases List.mem_append.mp member with first | later
  · exact absurd kind (feedless t first)
  · rcases List.mem_cons.mp later with rfl | last
    · left
      rw [feedBehind, Position.after_offset, Position.start_offset, Nat.zero_add]
    · obtain ⟨u, inside, rfl⟩ := List.mem_map.mp last
      exact .inr ⟨u, inside, kind, Nat.add_comm _ _⟩

theorem keptTokens_feedless {line : List Char} (feedless : ∀ t ∈ tokensOf line, t.kind ≠ .newline) :
    ∀ t ∈ keptTokens line, t.kind ≠ .newline :=
  fun t member => feedless t (List.mem_filter.mp member).1

theorem Clean.kept_stop_le {line : List Char} (clean : Clean line) :
    ∀ t ∈ keptTokens line, t.stop.offset ≤ Text.byteLength line :=
  fun _ member => clean.stop_le (List.mem_filter.mp member).1

/-- Lines are put into a text, which begins at `offset`, behind line breaks only. -/
def AtFeeds (extra : Nat → List (List Char)) (offset : Nat) (text : List Char) : Prop :=
  ∀ n, offset < n → extra n ≠ [] → ∃ t ∈ tokensOf text,
    t.kind = .newline ∧ n = offset + t.stop.offset

namespace AtFeeds

variable {extra : Nat → List (List Char)} {offset : Nat} {text line rest : List Char}

theorem insert_feedless (h : AtFeeds extra offset text)
    (feedless : ∀ t ∈ tokensOf text, t.kind ≠ .newline) : insertLines extra offset text = text := by
  apply insertLines_of_nil
  intro n low _
  by_contra some
  obtain ⟨t, member, kind, _⟩ := h n low some
  exact feedless t member kind

section Feed

variable (h : AtFeeds extra offset (line ++ '\n' :: rest)) (clean : Clean line)
  (feedless : ∀ t ∈ tokensOf line, t.kind ≠ .newline)
include h clean feedless

/-- Nothing is put in before the first line break. -/
theorem insert_feed : insertLines extra offset (line ++ '\n' :: rest) =
    line ++ '\n' :: ((extra (offset + Text.byteLength (line ++ ['\n']))).flatten ++
      insertLines extra (offset + Text.byteLength (line ++ ['\n'])) rest) := by
  have size : Text.byteLength (line ++ ['\n']) = Text.byteLength line + 1 :=
    Text.byteLength_append _ _
  have none : ∀ n, offset < n → n ≤ offset + Text.byteLength line → extra n = [] := by
    intro n low high
    by_contra some
    obtain ⟨t, member, kind, place⟩ := h n low some
    rcases feed_stop clean feedless member kind with stop | ⟨u, _, _, stop⟩
    · omega
    · omega
  rw [insertLines_append, insertLines_of_nil none, insertLines, size, Nat.add_assoc]
  rfl

theorem behind_feed : AtFeeds extra (offset + Text.byteLength (line ++ ['\n'])) rest := by
  intro n low some
  obtain ⟨t, member, kind, place⟩ := h n (by omega) some
  rcases feed_stop clean feedless member kind with stop | ⟨u, inside, kind', stop⟩
  · omega
  · exact ⟨u, inside, kind', by omega⟩

end Feed

/-- Lines without code put in behind line breaks pad the tokens of a text, wherever it stands. -/
theorem padded (void : ∀ n, ∀ line ∈ extra n, VoidLine line) (h : AtFeeds extra offset text)
    (clean : Clean text) (before before' : List Char) : Clean (insertLines extra offset text) ∧
      Padded (before ++ text) (before' ++ insertLines extra offset text)
      ((keptTokens text).map (Token.behind before))
        ((keptTokens (insertLines extra offset text)).map (Token.behind before')) := by
  -- by induction on the text: behind its first line break a shorter text begins
  induction size : text.length using Nat.strongRecOn generalizing offset text before before' with
  | _ k ih =>
      rcases clean.split with feedless | ⟨line, rest, rfl, clean', feedless⟩
      · rw [h.insert_feedless feedless]
        refine ⟨clean, ?_⟩
        have whole : Padded (before ++ (text ++ [])) (before' ++ (text ++ []))
            ((keptTokens text).map (Token.behind before) ++ [])
            ((keptTokens text).map (Token.behind before') ++ []) :=
          .line (keptTokens_feedless feedless) clean.kept_stop_le rfl rfl .done
        simpa only [List.append_nil] using whole
      · have shorter : rest.length < (line ++ '\n' :: rest).length := by
          rw [List.length_append, List.length_cons]
          omega
        have later := h.behind_feed clean' feedless
        rw [h.insert_feed clean' feedless]
        generalize offset + Text.byteLength (line ++ ['\n']) = n at later ⊢
        obtain ⟨cleanRest, padded⟩ :=
          ih _ (size ▸ shorter) later ((clean_feed clean' rest).mp clean)
          (before ++ (line ++ ['\n'])) (before' ++ (line ++ '\n' :: (extra n).flatten)) rfl
        obtain ⟨cleanVoid, breaks, kinds, behind⟩ :=
          keptTokens_voids (void n) (insertLines extra n rest)
        refine ⟨(clean_feed clean' _).mpr (cleanVoid.mpr cleanRest), ?_⟩
        rw [keptTokens_feed clean', keptTokens_feed clean', behind, List.map_append,
          List.map_append, List.map_cons, List.map_cons, List.map_append, List.map_append]
        refine .line (keptTokens_feedless feedless) clean'.kept_stop_le rfl rfl
          (.feed rfl rfl ?_ ?_)
        · intro t member
          rw [List.map_map] at member
          obtain ⟨u, inside, rfl⟩ := List.mem_map.mp member
          exact kinds u inside
        · simpa only [List.map_map, Function.comp_def, Token.behind_behind, List.append_assoc,
            List.cons_append, List.nil_append] using padded

end AtFeeds

/-- A text that can be scanned on its own, as a script with the state in which the parser starts. -/
theorem Clean.start {source : String} (clean : Clean source.toList) : ∃ tokens,
    tokenize source = .ok tokens ∧ (State.ofTokens source tokens).ahead = keptTokens source.toList ∧
    (State.ofTokens source tokens).final.kind = .eof ∧
    (State.ofTokens source tokens).final.text = "" := by
  let edge := Position.start.after source.toList
  have others : ∀ t ∈ tokensOf source.toList, t.kind ≠ .eof := by
    intro t member
    have holds := Scanner.initial_holds.run source.toList clean
    obtain ⟨_, _, _, _, covers⟩ := holds.tiled.place member
    exact covers.kind
  have closing : (⟨.eof, "", edge, edge⟩ : Token).kind = .eof := rfl
  obtain ⟨_, ahead, final⟩ := State.ofTokens_split source closing others
  refine ⟨tokensOf source.toList ++ [⟨.eof, "", edge, edge⟩], ?_, ahead, ?_, ?_⟩
  · have fault : (scan source).fault = none := clean
    rw [tokenize, fault, scan_tokens, lineTokens_eq]
    rfl
  · rw [final]
  · rw [final]

/-- Lines without code put in behind line breaks are invisible to the parser: what it makes of a
script, well-formed or not, is the same up to places, and so are the messages of the statements it
drops. -/
theorem parse_insertLines {source : String} {tokens : List Token}
    (scanned : tokenize source = .ok tokens)
    {extra : Nat → List (List Char)} (void : ∀ n, ∀ line ∈ extra n, VoidLine line)
    (feeds : ∀ n, extra n ≠ [] → ∃ t ∈ tokens, t.kind = .newline ∧ t.stop.offset = n) : ∃ out out',
    parse source = .ok out ∧ parse (String.ofList (insertLines extra 0 source.toList)) = .ok out' ∧
      out'.program.bare = out.program.bare ∧
      out'.skipped.map (·.error.message) = out.skipped.map (·.error.message) := by
  obtain ⟨fault, rfl⟩ := fault_of_tokenize scanned
  have clean : Clean source.toList := fault
  have atFeeds : AtFeeds extra 0 source.toList := by
    intro n _ some
    obtain ⟨t, member, kind, stop⟩ := feeds n some
    rw [scan_tokens, lineTokens_eq] at member
    rcases List.mem_append.mp member with inside | last
    · exact ⟨t, inside, kind, by omega⟩
    · rw [List.mem_singleton.mp last] at kind
      cases kind
  obtain ⟨clean', padded⟩ := atFeeds.padded void clean [] []
  rw [List.map_id'' Token.behind_nil, List.map_id'' Token.behind_nil] at padded
  obtain ⟨source', text⟩ :
    ∃ source' : String, source' = String.ofList (insertLines extra 0 source.toList) := ⟨_, rfl⟩
  have text' :
    insertLines extra 0 source.toList = source'.toList := by rw [text, String.toList_ofList]
  rw [text'] at clean' padded
  rw [← text]
  obtain ⟨tokens, read, ahead, final, empty⟩ := clean.start
  obtain ⟨tokens', read', ahead', final', empty'⟩ := clean'.start
  have together : InStep (.ofTokens source tokens) (.ofTokens source' tokens') := by
    refine ⟨?_, rfl, final, ⟨final'.trans final.symm, empty'.trans empty.symm⟩, rfl⟩
    rw [ahead, ahead']
    exact padded
  obtain ⟨body, last, run, _⟩ := script_ok final
  obtain ⟨body', last', run', _⟩ := script_ok final'
  have paired := paddedSides_levelled.script_alike treeShape_bare _ _ together
  rw [run, run'] at paired
  obtain ⟨same, dropped⟩ := parseTokens_of_run run
  obtain ⟨same', dropped'⟩ := parseTokens_of_run run'
  refine ⟨parseTokens source tokens,
    parseTokens source' tokens', by rw [parse, read]; rfl, by rw [parse, read']; rfl, ?_, ?_⟩
  · cases paired with
    | ok result => rw [Program.bare, Program.bare, same, same', map_eq_of_forall₂ result.1]
  · cases paired with
    | ok result => rw [dropped, dropped', List.map_reverse, List.map_reverse, result.2.skipped]

/-- Comments and blank lines for the first and the third line break of a script. -/
def sampleLines (n : Nat) : List (List Char) :=
  if n = 5 then ["; c\n".toList, "\t\r\n".toList] else if n = 14 then ["\n".toList,
    " ; \"\n".toList] else []

theorem sampleLines_void (n : Nat) : ∀ line ∈ sampleLines n, VoidLine line := by
  intro line member
  unfold sampleLines at member
  split at member
  · rcases List.mem_pair.mp member with rfl | rfl
    · exact ⟨[], "; c".toList, rfl, by simp, by simp, by decide⟩
    · exact ⟨"\t\r".toList, [], rfl, by simp [isBlank], by simp, by decide⟩
  · split at member
    · rcases List.mem_pair.mp member with rfl | rfl
      · exact ⟨[], [], rfl, by simp, by simp, by decide⟩
      · exact ⟨[' '], "; \"".toList, rfl, by simp [isBlank], by simp, by decide⟩
    · cases member

/-- A hotkey, a statement that is dropped, and a string over two lines, between whose lines nothing
is put in. -/
theorem parse_insertLines_malformed :
    ∃ out out', parse "^j::\nif a\n) b\nelse s := \"p\nq\"\n#D v" = .ok out ∧
    parse "^j::\n; c\n\t\r\nif a\n) b\n\n ; \"\nelse s := \"p\nq\"\n#D v" = .ok out' ∧
    out'.program.bare = out.program.bare ∧
    out'.skipped.map (·.error.message) = out.skipped.map (·.error.message) ∧
    out.skipped.map (·.error.message) = ["Expected expression, found ')'"] := by
  have clean : (scan "^j::\nif a\n) b\nelse s := \"p\nq\"\n#D v").fault = none := by decide +kernel
  have scanned : tokenize "^j::\nif a\n) b\nelse s := \"p\nq\"\n#D v" =
      .ok (scan "^j::\nif a\n) b\nelse s := \"p\nq\"\n#D v").tokens := by
    rw [tokenize, clean]
  have first : (⟨.newline, "\n", ⟨1, 5, 4⟩, ⟨2, 1, 5⟩⟩ : Token) ∈
      (scan "^j::\nif a\n) b\nelse s := \"p\nq\"\n#D v").tokens := by decide +kernel
  have third : (⟨.newline, "\n", ⟨3, 4, 13⟩, ⟨4, 1, 14⟩⟩ : Token) ∈
      (scan "^j::\nif a\n) b\nelse s := \"p\nq\"\n#D v").tokens := by decide +kernel
  have feeds :
      ∀ n, sampleLines n ≠ [] → ∃ t ∈ (scan "^j::\nif a\n) b\nelse s := \"p\nq\"\n#D v").tokens,
      t.kind = .newline ∧ t.stop.offset = n := by
    intro n some
    unfold sampleLines at some
    split at some
    · next here => exact ⟨_, first, rfl, here.symm⟩
    · split at some
      · next here => exact ⟨_, third, rfl, here.symm⟩
      · exact absurd rfl some
  have padded :
      String.ofList (insertLines sampleLines 0 "^j::\nif a\n) b\nelse s := \"p\nq\"\n#D v".toList) =
      "^j::\n; c\n\t\r\nif a\n) b\n\n ; \"\nelse s := \"p\nq\"\n#D v" := by decide +kernel
  have dropped : ((parse "^j::\nif a\n) b\nelse s := \"p\nq\"\n#D v").toOption.map
      fun out => out.skipped.map (·.error.message)) =
      some ["Expected expression, found ')'"] := by decide +kernel
  obtain ⟨out, out', read, read', same, messages⟩ :=
    parse_insertLines scanned sampleLines_void feeds
  rw [padded] at read'
  rw [read] at dropped
  exact ⟨out, out', read, read', same, messages, Option.some.inj dropped⟩

end ScriptLens
