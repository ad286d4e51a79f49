import ScriptLens.Proofs.Returns.Text
import ScriptLens.Proofs.Scan.Tails

/-!
Scripts with a carriage return in front of every line feed. The carriage return is a blank, or the
last character of a comment, or it stands in a string; the tokens are those of the script without
it, at the places to which the characters moved.
-/

namespace ScriptLens

open Text

namespace Lexeme

theorem readString_withReturns (rest : List Char) : readString (withReturns rest) =
    ⟨(readString rest).shape, withReturns (readString rest).text,
      withReturns (readString rest).rest⟩ := by
  have other : '"' ≠ '\n' := by decide
  rw [readString, readString, takeWhile_withReturns (by decide) (by decide),
    dropWhile_withReturns (by decide) (by decide)]
  cases found : rest.dropWhile (· != '"') with
  | nil =>
      dsimp only [withReturns_nil]
      rw [withReturns_cons other]
  | cons quote after =>
      have same : quote = '"' := dropWhile_ne_stops (by rw [found]; exact rfl)
      subst same
      rw [withReturns_cons other]
      dsimp only
      rw [withReturns_cons other, withReturns_append, withReturns_cons other]
      rfl

/-- Any lexeme but a line feed and a comment is read alike. -/
theorem read_withReturns {c : Char} (line : c ≠ '\n') (comment : c ≠ ';') (rest : List Char) :
    read c (withReturns rest) =
    ⟨(read c rest).shape, withReturns (read c rest).text, withReturns (read c rest).rest⟩ := by
  by_cases quote : c = '"'
  · subst quote
    exact readString_withReturns rest
  -- what stands on the line is not changed
  have onLine {front : List Char} (free : '\n' ∉ front) :
      withReturns (read c front).text = (read c front).text ∧
      withReturns (read c front).rest = (read c front).rest := by
    have whole := read_append c front
    have free' : '\n' ∉ (read c front).text ++ (read c front).rest := by
      rw [whole, List.mem_cons, not_or]
      exact ⟨Ne.symm line, free⟩
    rw [List.mem_append, not_or] at free'
    exact ⟨withReturns_line free'.1, withReturns_line free'.2⟩
  have closed (front : List Char) : (read c front).shape ≠ .unclosed := fun shape =>
    quote (read_unclosed shape)
  by_cases feed : '\n' ∈ rest
  · obtain ⟨front, more, rfl, free⟩ := List.eq_append_cons_of_mem feed
    obtain ⟨text, behind⟩ := onLine free
    have stops : Stops '\r' := ⟨rfl, rfl, rfl, by decide⟩
    rw [withReturns_append, withReturns_feed, withReturns_line free, read_before_stop stops comment
      (fun _ => by decide) (closed front), read_feed (closed front), before, before]
    dsimp only
    rw [withReturns_append, withReturns_feed, text, behind]
  · obtain ⟨text, behind⟩ := onLine feed
    rw [withReturns_line feed, text, behind]

/-- Only a string holds line feeds. -/
theorem read_free {c : Char} (line : c ≠ '\n') (quote : c ≠ '"') (rest : List Char) :
    '\n' ∉ (read c rest).text := by
  by_cases comment : c = ';'
  · rw [comment]
    exact (read_comment rest).2.1
  · obtain ⟨tail, whole, inside⟩ := read_tailed comment quote rest
    rw [whole, List.mem_cons, not_or]
    refine ⟨Ne.symm line, fun member => ?_⟩
    have part := inside _ member
    cases part

theorem rewritten_withReturns {c : Char} {rest : List Char} (line : c ≠ '\n')
    (clean : '\r' ∉ c :: rest) (behind : List Char) : Scanner.Rewritten (read c rest)
    ⟨(read c rest).shape, withReturns (read c rest).text, behind⟩ := by
  refine ⟨rfl, withReturns_line, feed_mem_withReturns.mpr, fun changed => ?_, ?_⟩
  · by_cases quote : c = '"'
    · subst quote
      rcases readString_shape rest with ⟨shape, _⟩ | shape
      · exact .inr shape
      · exact .inl shape
    · exact absurd (withReturns_line (read_free line quote rest)) changed
  · refine Pattern.occurs_withReturns (fun member => clean ?_) (by decide)
    rw [← read_append c rest]
    exact List.mem_append_left _ member

end Lexeme

namespace Scanner

/-- A line feed behind a carriage return. -/
theorem run_return (s : Scanner) (text : List Char) : s.run ('\r' :: '\n' :: text) =
    ((s.take ⟨.blank, ['\r'], '\n' :: text⟩).push .newline ['\n']).run text := by
  have blank : Lexeme.read '\r' ('\n' :: text) = ⟨.blank, ['\r'], '\n' :: text⟩ := rfl
  rw [run_lexeme (by rw [blank]; simp), blank, run_newline]

/-- Both scanners are done, with the same tokens and the same fault. -/
def Done (σ : Shift) (out out' : Scanner × Option LexError) : Prop :=
  Abreast σ (fun _ => true) out.1 out'.1 ∧ out'.2 = out.2.map (LexError.shift σ)

/-- Both scanners have read a part of the text and stand at the same character again. -/
structure Went (σ : Shift) (a b : Scanner) (text part rest : List Char)
    (a' b' : Scanner) : Prop where
  parts : text = part ++ rest
  solid : part ≠ []
  run : a.run text = a'.run rest
  run' : b.run (withReturns text) = b'.run (withReturns rest)
  level : Level σ (fun _ => true) a' b'
  here : a'.here = a.here.after part

section Step

variable {source read text : List Char} (clean : '\r' ∉ source) (split : source = read ++ text)
  {a b : Scanner}
variable (level : Level (.ofReturns source) (fun _ => true) a b)
  (here : a.here = Position.start.after read)

include split level here in
theorem here_withReturns {part rest : List Char} (parts : text = part ++ rest) :
    b.here.after (withReturns part) = (a.here.after part).shift (.ofReturns source) := by
  have whole : source = (read ++ part) ++ rest := by rw [split, parts, List.append_assoc]
  have place := Position.after_withReturns whole
  rwa [withReturns_append, Position.after_append, Position.after_append,
    Position.after_withReturns split, ← here, ← level.here] at place

include split level here in
theorem step_feed {rest : List Char} (first : text = '\n' :: rest) :
    Went (.ofReturns source) a b text ['\n'] rest (a.push .newline ['\n'])
      ((b.take ⟨.blank, ['\r'], '\n' :: withReturns rest⟩).push .newline ['\n']) := by
  have parts : text = ['\n'] ++ rest := first
  have place := here_withReturns split level here parts
  have trail : Abreast (.ofReturns source) (fun _ => true) a
      (b.take ⟨.blank, ['\r'], '\n' :: withReturns rest⟩) :=
    level.toAbreast.blank (by decide)
  refine ⟨first, by simp, ?_, ?_, trail.newline rfl ?_, push_here a _ _⟩
  · rw [first, run_newline]
  · rw [first, withReturns_feed, run_return]
  · rw [take_here]
    exact place

include split level here in
/-- A comment takes the carriage return at its end. -/
theorem step_comment {words rest : List Char} (first : text = ';' :: (words ++ '\n' :: rest))
    (free : '\n' ∉ words) : Went (.ofReturns source) a b text (';' :: words ++ ['\n']) rest
      ((a.push .comment (';' :: words)).push .newline ['\n'])
      ((b.push .comment (';' :: (words ++ ['\r']))).push .newline ['\n']) := by
  have parts : text = (';' :: words ++ ['\n']) ++ rest := by simp [first]
  have free' : '\n' ∉ words ++ ['\r'] := by simpa using free
  have place := here_withReturns split level here parts
  have inside : withReturns (';' :: words ++ ['\n']) = ';' :: (words ++ ['\r']) ++ ['\n'] := by
    rw [withReturns_append, withReturns_feed, withReturns_line (by simpa using free)]
    simp
  have comment : Abreast (.ofReturns source) (fun _ => true) (a.push .comment (';' :: words))
      (b.push .comment (';' :: (words ++ ['\r']))) :=
    level.comment rfl (by simpa using free) (by simpa using free)
  refine ⟨parts, by simp, ?_, ?_, comment.newline rfl ?_, ?_⟩
  · rw [first, run_comment a free]
  · rw [parts, withReturns_append, inside, ← run_comment b free']
    simp
  · rw [inside, Position.after_append, Position.after_append] at place
    rw [push_here, push_here]
    exact place
  · rw [push_here, push_here, Position.after_append]

include clean split level here in
/-- Any other lexeme is read on both sides. -/
theorem step_lexeme {c : Char} {rest : List Char} (first : text = c :: rest) (line : c ≠ '\n')
    (comment : c ≠ ';') (closed : (Lexeme.read c rest).shape ≠ .unclosed) :
    ∃ b', Went (.ofReturns source) a b text (Lexeme.read c rest).text (Lexeme.read c rest).rest
      (a.take (Lexeme.read c rest)) b' := by
  have same := Lexeme.read_withReturns line comment rest
  have parts : text =
    (Lexeme.read c rest).text ++ (Lexeme.read c rest).rest := by rw [first, Lexeme.read_append]
  have pure : '\r' ∉ c :: rest := fun member =>
    clean (by rw [split, first]; exact List.mem_append_right _ member)
  have rewritten := Lexeme.rewritten_withReturns line pure (withReturns (Lexeme.read c rest).rest)
  have level' :=
    level.take rewritten closed (fun _ _ => rfl) (here_withReturns split level here parts)
  refine ⟨_, parts, Lexeme.read_text_ne_nil c rest, ?_, ?_, level', take_here a _⟩
  · rw [first, run_lexeme closed]
  · rw [first, withReturns_cons line, run_lexeme (by rw [same]; exact closed), same]

include clean split level here in
/-- One step on both sides: the text ends, a string stays open, or a part of the text has been
read. -/
theorem step_withReturns : Done (.ofReturns source) (a.run text) (b.run (withReturns text)) ∨
    ∃ part rest a' b', Went (.ofReturns source) a b text part rest a' b' := by
  cases first : text with
  | nil =>
      rw [withReturns_nil, run_nil, run_nil]
      exact .inl ⟨level.toAbreast, rfl⟩
  | cons c rest =>
      rw [← first]
      by_cases feed : c = '\n'
      · exact .inr ⟨_, _, _, _, step_feed split level here (feed ▸ first)⟩
      by_cases comment : c = ';'
      · by_cases line : '\n' ∈ rest
        · obtain ⟨words, more, rfl, free⟩ := List.eq_append_cons_of_mem line
          exact .inr ⟨_, _, _, _, step_comment split level here (comment ▸ first) free⟩
        · have free : '\n' ∉ ';' :: rest := by simpa using line
          rw [first, comment, withReturns_line free, run_comment_end a line, run_comment_end b line]
          exact .inl ⟨level.comment rfl free free, rfl⟩
      by_cases unclosed : (Lexeme.read c rest).shape = .unclosed
      · have same := Lexeme.read_withReturns feed comment rest
        have parts : text = (Lexeme.read c rest).text ++
          (Lexeme.read c rest).rest := by rw [first, Lexeme.read_append]
        have place := here_withReturns split level here parts
        have run (s : Scanner) {more : List Char} (shape : (Lexeme.read c more).shape = .unclosed) :
            s.run (c :: more) =
            (s.take (Lexeme.read c more), some (.unterminatedString s.here)) := by
          rw [Scanner.run]
          exact if_pos shape
        rw [first, withReturns_cons feed, run a unclosed,
          run b (by rw [same]; exact unclosed), same]
        refine .inl ⟨level.unclosed unclosed unclosed (Position.line_of_shift place), ?_⟩
        rw [Option.map_some, LexError.shift, level.here]
      · obtain ⟨b', went⟩ := step_lexeme clean split level here first feed comment unclosed
        exact .inr ⟨_, _, _, b', went⟩

end Step

/-- The same text is read on, once with carriage returns and once without. -/
theorem run_withReturns {source : List Char} (clean : '\r' ∉ source) {read text : List Char}
    (split : source = read ++ text)
    {a b : Scanner} (level : Level (.ofReturns source) (fun _ => true) a b)
    (here : a.here = Position.start.after read) :
    Done (.ofReturns source) (a.run text) (b.run (withReturns text)) := by
  -- by induction on the length of the text
  induction size : text.length using Nat.strong_induction_on generalizing read text a b with
  | _ n ih =>
      rcases step_withReturns clean split level here with done | ⟨part, rest, a', b', went⟩
      · exact done
      · have positive := List.length_pos_iff.mpr went.solid
        have length := congrArg List.length went.parts
        rw [List.length_append] at length
        have split' :
          source = (read ++ part) ++ rest := by rw [split, went.parts, List.append_assoc]
        have here' : a'.here =
          Position.start.after (read ++ part) := by rw [went.here, here, Position.after_append]
        rw [went.run, went.run']
        exact ih rest.length (by omega) split' went.level here' rfl

end Scanner

/-- The script with carriage returns. -/
def addReturns (source : String) : String := String.ofList (Text.withReturns source.toList)

/-- Its tokens are moved, and so is its fault. -/
theorem scan_addReturns {source : String} (clean : '\r' ∉ source.toList) :
    List.Forall₂ (Token.Shifted (.ofReturns source.toList))
    (scan source).tokens (scan (addReturns source)).tokens ∧ (scan (addReturns source)).fault =
      (scan source).fault.map (LexError.shift (.ofReturns source.toList)) := by
  have text : (addReturns source).toList = Text.withReturns source.toList := String.toList_ofList
  obtain ⟨abreast, fault⟩ := Scanner.run_withReturns clean (List.nil_append source.toList).symm
    (Scanner.initial_level (Shift.ofReturns_zero source.toList)) rfl
  have tokens := abreast.tokens rfl
  rw [List.filter_true] at tokens
  rw [scan, scan, text]
  exact ⟨tokens, fault⟩

end ScriptLens
