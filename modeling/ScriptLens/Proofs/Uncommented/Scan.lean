import ScriptLens.Proofs.Scan.Comments
import ScriptLens.Proofs.Shift.Scan

/-!
Scripts without the text of their comments. A comment ends at a line feed or at the end of the
script, so every other lexeme is read as before, and the tokens are those of the script with its
comments left out, at the places to which they move back.
-/

namespace ScriptLens

namespace Text

/-- What is left of a text when pieces are cut out of it; a piece is given by its offset and its
length in bytes. -/
def without (pieces : List (Nat × Nat)) : Nat → List Char → List Char
  | _, [] => []
  | offset, c :: rest =>
    if pieces.any fun piece => decide (piece.1 ≤ offset) && decide (offset < piece.1 + piece.2) then
      without pieces (offset + c.utf8Size) rest
    else c :: without pieces (offset + c.utf8Size) rest

variable {pieces : List (Nat × Nat)} {n : Nat}

theorem without_append (a b : List Char) :
    without pieces n (a ++ b) = without pieces n a ++ without pieces (n + byteLength a) b := by
  induction a generalizing n with
  | nil => rfl
  | cons c a ih =>
      rw [List.cons_append, without, without, ih, byteLength_cons, Nat.add_assoc]
      split <;> rfl

/-- A piece that is cut out leaves nothing. -/
theorem without_inside {start length : Nat} (cut : (start, length) ∈ pieces) {text : List Char}
    (low : start ≤ n)
    (high : n + byteLength text ≤ start + length) : without pieces n text = [] := by
  induction text generalizing n with
  | nil => rfl
  | cons c text ih =>
      have positive := c.utf8Size_pos
      rw [byteLength_cons] at high
      have found : (pieces.any fun piece =>
          decide (piece.1 ≤ n) && decide (n < piece.1 + piece.2)) = true := by
        refine List.any_eq_true.mpr ⟨_, cut, ?_⟩
        simp only [Bool.and_eq_true, decide_eq_true_eq]
        omega
      rw [without, if_pos found]
      exact ih (by omega) (by omega)

/-- What no piece meets is left as it is. -/
theorem without_outside {text : List Char}
    (apart : ∀ piece ∈ pieces, piece.1 + piece.2 ≤ n ∨ n + byteLength text ≤ piece.1) :
    without pieces n text = text := by
  induction text generalizing n with
  | nil => rfl
  | cons c text ih =>
      have positive := c.utf8Size_pos
      rw [byteLength_cons] at apart
      have missed : ¬(pieces.any fun piece =>
          decide (piece.1 ≤ n) && decide (n < piece.1 + piece.2)) = true := by
        rw [List.any_eq_true]
        rintro ⟨piece, member, meets⟩
        simp only [Bool.and_eq_true, decide_eq_true_eq] at meets
        rcases apart piece member with before | behind <;> omega
      rw [without, if_neg missed, ih]
      intro piece member
      rcases apart piece member with before | behind
      · exact .inl (by omega)
      · exact .inr (by omega)

/-- A text without its comments, lexeme by lexeme. -/
def uncommented : List Char → List Char
  | [] => []
  | c :: rest =>
    if c = ';' then uncommented (Lexeme.read c rest).rest
    else (Lexeme.read c rest).text ++ uncommented (Lexeme.read c rest).rest
termination_by text => text.length
decreasing_by all_goals exact Lexeme.read_rest_length c rest

@[simp] theorem uncommented_nil : uncommented [] = [] := by rw [uncommented]

theorem uncommented_comment (rest : List Char) :
    uncommented (';' :: rest) = uncommented (Lexeme.read ';' rest).rest := by
  rw [uncommented, if_pos rfl]

theorem uncommented_lexeme {c : Char} (other : c ≠ ';') (rest : List Char) :
    uncommented (c :: rest) =
    (Lexeme.read c rest).text ++ uncommented (Lexeme.read c rest).rest := by
  rw [uncommented, if_neg other]

theorem uncommented_feed (text : List Char) :
    uncommented ('\n' :: text) = '\n' :: uncommented text :=
  uncommented_lexeme (by decide) text

theorem uncommented_line {words : List Char} (free : '\n' ∉ words) (more : List Char) :
    uncommented (';' :: (words ++ '\n' :: more)) = '\n' :: uncommented more := by
  rw [uncommented_comment, Lexeme.read_comment_feed free, uncommented_feed]

/-- The comments of a text that starts at an offset: for each one its place and its length. What
stands behind a comment counts on by the `width` of its length. -/
def commentsFrom (width : Nat → Nat) (n : Nat) : List Char → List (Nat × Nat)
  | [] => []
  | c :: rest =>
    let size := byteLength (Lexeme.read c rest).text
    if c = ';' then (n, size) :: commentsFrom width (n + width size) (Lexeme.read c rest).rest
    else commentsFrom width (n + size) (Lexeme.read c rest).rest
termination_by text => text.length
decreasing_by all_goals exact Lexeme.read_rest_length c rest

section Places

variable {width : Nat → Nat}

@[simp] theorem commentsFrom_nil : commentsFrom width n [] = [] := by rw [commentsFrom]

theorem commentsFrom_comment (rest : List Char) : commentsFrom width n (';' :: rest) =
    (n, byteLength (Lexeme.read ';' rest).text) :: commentsFrom width
      (n + width (byteLength (Lexeme.read ';' rest).text)) (Lexeme.read ';' rest).rest := by
  rw [commentsFrom, if_pos rfl]

theorem commentsFrom_lexeme {c : Char} (other : c ≠ ';') (rest : List Char) :
    commentsFrom width n (c :: rest) =
    commentsFrom width (n + byteLength (Lexeme.read c rest).text) (Lexeme.read c rest).rest := by
  rw [commentsFrom, if_neg other]

theorem commentsFrom_feed (text : List Char) :
    commentsFrom width n ('\n' :: text) = commentsFrom width (n + 1) text :=
  commentsFrom_lexeme (by decide) text

theorem commentsFrom_line {words : List Char} (free : '\n' ∉ words) (more : List Char) :
    commentsFrom width n (';' :: (words ++ '\n' :: more)) = (n, byteLength (';' :: words)) ::
      commentsFrom width (n + width (byteLength (';' :: words)) + 1) more := by
  rw [commentsFrom_comment, Lexeme.read_comment_feed free, commentsFrom_feed]

/-- All comments stand behind the start of the text. -/
theorem commentsFrom_behind {text : List Char} {piece : Nat × Nat}
    (member : piece ∈ commentsFrom width n text) : n ≤ piece.1 := by
  induction text using uncommented.induct generalizing n with
  | case1 => simp at member
  | case2 rest ih =>
      rw [commentsFrom_comment] at member
      rcases List.mem_cons.mp member with rfl | later
      · exact Nat.le_refl _
      · exact Nat.le_trans (Nat.le_add_right _ _) (ih later)
  | case3 c rest other ih =>
      rw [commentsFrom_lexeme other] at member
      exact Nat.le_trans (Nat.le_add_right _ _) (ih member)

end Places

/-- Cutting out the comments at their places leaves the text without them. -/
theorem without_comments {older : List (Nat × Nat)} {text : List Char}
    (before : ∀ piece ∈ older, piece.1 + piece.2 ≤ n) :
    without (older ++ commentsFrom id n text) n text = uncommented text := by
  induction text using uncommented.induct generalizing older n with
  | case1 => rw [uncommented_nil, without]
  | case2 rest ih =>
      have whole := Lexeme.read_append ';' rest
      generalize size : byteLength (Lexeme.read ';' rest).text = length at *
      rw [uncommented_comment, commentsFrom_comment, size, id, ← whole, without_append, size]
      have inside : without (older ++ (n, length) :: commentsFrom id
          (n + length) (Lexeme.read ';' rest).rest) n (Lexeme.read ';' rest).text = [] :=
        without_inside (List.mem_append_right _ List.mem_cons_self) (Nat.le_refl n) (by rw [size])
      rw [inside, List.nil_append, ← List.singleton_append, ← List.append_assoc]
      refine ih fun piece member => ?_
      rcases List.mem_append.mp member with old | new
      · exact Nat.le_trans (before piece old) (Nat.le_add_right _ _)
      · rw [List.mem_singleton.mp new]
  | case3 c rest other ih =>
      have whole := Lexeme.read_append c rest
      rw [uncommented_lexeme other, commentsFrom_lexeme other, ← whole, without_append, ih]
      · congr 1
        refine without_outside fun piece member => ?_
        rcases List.mem_append.mp member with old | new
        · exact .inl (before piece old)
        · exact .inr (commentsFrom_behind new)
      · exact fun piece member => Nat.le_trans (before piece member) (Nat.le_add_right _ _)

/-- Up to the first comment a text is left as it is; what is left behind that starts with a line
feed, if anything is. -/
theorem uncommented_split (text : List Char) : uncommented text = text ∨ ∃ front more behind,
    text = front ++ ';' :: more ∧
    uncommented text = front ++ behind ∧ ∀ d ∈ behind.head?, d = '\n' := by
  induction text using uncommented.induct with
  | case1 => exact .inl uncommented_nil
  | case2 rest ih =>
      refine .inr ⟨[], rest, uncommented (';' :: rest), rfl, rfl, ?_⟩
      rw [uncommented_comment]
      have feed := (Lexeme.read_comment rest).2.2
      cases ahead : (Lexeme.read ';' rest).rest with
      | nil => simp
      | cons d more =>
          rw [ahead] at feed
          rw [feed d rfl, uncommented_feed]
          simp
  | case3 c rest other ih =>
      rw [uncommented_lexeme other, ← Lexeme.read_append c rest]
      rcases ih with same | ⟨front, more, behind, split, left, feed⟩
      · rw [same]
        exact .inl rfl
      · refine .inr ⟨(Lexeme.read c rest).text ++ front, more, behind, ?_, ?_, feed⟩
        · rw [List.append_assoc, ← split]
        · rw [List.append_assoc, ← left]

end Text

open Text

/-- Only a semicolon opens a comment. -/
theorem Lexeme.read_ne_comment {c : Char} {rest : List Char} {kind : Kind}
    (shape : (read c rest).shape = .token kind) (other : c ≠ ';') : kind ≠ .comment := by
  by_cases feed : c = '\n'
  · subst feed
    rw [← Shape.token.inj shape]
    decide
  · have inline := read_isInline shape feed other
    rintro rfl
    cases inline

/-- A lexeme is read alike when comments behind it are gone. -/
theorem Lexeme.read_uncommented {c : Char} {rest : List Char} (other : c ≠ ';')
    (closed : (read c rest).shape ≠ .unclosed) : ∃ rest', uncommented (c :: rest) = c :: rest' ∧
      read c rest' = ⟨(read c rest).shape, (read c rest).text, uncommented (read c rest).rest⟩ := by
  obtain ⟨tail, head⟩ := read_head c rest
  have whole := read_append c rest
  rw [head, List.cons_append, List.cons.injEq] at whole
  refine ⟨tail ++ uncommented (read c rest).rest, ?_, ?_⟩
  · rw [uncommented_lexeme other, head, List.cons_append]
  rcases uncommented_split (read c rest).rest with same | ⟨front, more, behind, split, left, feed⟩
  · rw [same, whole.2]
  -- the lexeme ends before the comment, so it is the lexeme of the text up to there
  have whole' : (tail ++ front) ++ ';' :: more = rest := by rw [List.append_assoc, ← split, whole.2]
  have ends : (';' :: more).length ≤ (read c ((tail ++ front) ++ ';' :: more)).rest.length := by
    rw [whole', split, List.length_append]
    exact Nat.le_add_left _ _
  have cut := read_cut ends
  rw [whole'] at cut
  have here : (read c (tail ++ front)).rest = front := by
    rw [cut] at split
    exact List.append_cancel_right split
  have alone : read c (tail ++ front) = ⟨(read c rest).shape, (read c rest).text, front⟩ := by
    rw [cut]
    generalize read c (tail ++ front) = lexeme at here
    rw [← here]
    rfl
  rw [left]
  cases behind with
  | nil => rw [List.append_nil, alone]
  | cons d behind =>
      rw [feed d rfl, ← List.append_assoc, read_feed (by rw [alone]; exact closed), alone, before]

namespace Scanner

/-- Whether a token is none of the comments. -/
abbrev apart (kind : Kind) : Bool := kind != .comment

section Step

variable {done gaps : List (Nat × Nat)} {text : List Char} {a b : Scanner}

/-- A place that was passed moves by the comments before it. -/
theorem offset_uncommented {n : Nat} (split : gaps = done ++ commentsFrom (fun _ => 0) n text)
    (before : ∀ gap ∈ done, gap.1 < n) :
    (Shift.insert gaps).offset n = n + (done.map Prod.snd).sum := by
  rw [split]
  exact Shift.insert_offset before fun gap member => commentsFrom_behind member

/-- Behind its line feed a comment was passed too. -/
theorem passed_comment {n size : Nat} (before : ∀ gap ∈ done, gap.1 < n) :
    ∀ gap ∈ done ++ [(n, size)], gap.1 < n + 1 := by
  intro gap member
  rcases List.mem_append.mp member with old | new
  · exact Nat.lt_succ_of_lt (before gap old)
  · rw [List.mem_singleton.mp new]
    exact Nat.lt_succ_self n

/-- Any lexeme but a comment is read on both sides. -/
theorem level_lexeme (level : Level (.insert gaps) apart a b)
    (before : ∀ gap ∈ done, gap.1 < a.here.offset) {c : Char} {rest : List Char}
    (split : gaps = done ++ commentsFrom (fun _ => 0) a.here.offset (c :: rest)) (other : c ≠ ';')
    (closed : (Lexeme.read c rest).shape ≠ .unclosed) : ∃ a', a.run (uncommented (c :: rest)) =
      a'.run (uncommented (Lexeme.read c rest).rest) ∧
      Level (.insert gaps) apart a' (b.take (Lexeme.read c rest)) ∧
      a'.here = a.here.after (Lexeme.read c rest).text := by
  obtain ⟨rest', whole, same⟩ := Lexeme.read_uncommented other closed
  have split' := split
  rw [commentsFrom_lexeme other] at split'
  have further : ∀ gap ∈ done, gap.1 < a.here.offset + byteLength (Lexeme.read c rest).text :=
    fun gap member => Nat.lt_of_lt_of_le (before gap member) (Nat.le_add_right _ _)
  have place : b.here.after (Lexeme.read c rest).text =
      (a.here.after (Lexeme.read c rest).text).shift (.insert gaps) := by
    rw [Position.after_of_shift (p := a.here) (q := b.here) _ (Position.line_of_shift level.here)
      (by rw [level.here]; rfl), level.here]
    simp only [Position.shift, Position.after_offset]
    rw [offset_uncommented split before, offset_uncommented split' further, Nat.add_right_comm]
  have counted : ∀ kind, (Lexeme.read c rest').shape = .token kind ∨ kind = .hotkey →
      apart kind = true := by
    rintro kind (shape | rfl)
    · exact bne_iff_ne.mpr (Lexeme.read_ne_comment shape other)
    · rfl
  refine ⟨a.take (Lexeme.read c rest'), ?_, ?_, ?_⟩
  · rw [whole, run_lexeme (by rw [same]; exact closed), same]
  · have rewritten : Rewritten (Lexeme.read c rest') (Lexeme.read c rest) := by
      rw [same]
      exact Rewritten.same ⟨_, _, uncommented _⟩ (Lexeme.read c rest).rest
    exact level.take rewritten (by rw [same]; exact closed) counted (by rw [same]; exact place)
  · rw [take_here, same]

/-- A comment and the line feed behind it, of which only the line feed is left. -/
theorem level_comment (level : Level (.insert gaps) apart a b)
    (before : ∀ gap ∈ done, gap.1 < a.here.offset) {words more : List Char} (free : '\n' ∉ words)
    (split : gaps =
      done ++ commentsFrom (fun _ => 0) a.here.offset (';' :: (words ++ '\n' :: more))) :
    Level (.insert gaps) apart
    (a.push .newline ['\n']) ((b.push .comment (';' :: words)).push .newline ['\n']) := by
  have free' : '\n' ∉ ';' :: words := by simpa using free
  have left : Abreast (.insert gaps) apart a (b.push .comment (';' :: words)) :=
    level.toAbreast.uncounted rfl free'
  have here : b.here.offset = a.here.offset + (done.map Prod.snd).sum := by
    rw [level.here]
    exact offset_uncommented split before
  rw [commentsFrom_line free, ← List.singleton_append, ← List.append_assoc] at split
  refine left.newline rfl ?_
  have feed (p : Position) : p.after ['\n'] = ⟨p.line + 1, 1, p.offset + 1⟩ := rfl
  rw [feed, feed, left.line, Position.shift, push_here, Position.after_offset]
  dsimp only
  rw [offset_uncommented split (passed_comment before), here, List.map_append, List.sum_append]
  simp only [List.map_singleton, List.sum_singleton, Position.mk.injEq, true_and]
  omega

/-- The text is read on, on one side without its comments. -/
theorem run_uncommented (clean : (b.run text).2 = none) (level : Level (.insert gaps) apart a b)
    (before : ∀ gap ∈ done, gap.1 < a.here.offset)
    (split : gaps = done ++ commentsFrom (fun _ => 0) a.here.offset text) :
    Abreast (.insert gaps) apart (a.run (uncommented text)).1 (b.run text).1 ∧
    (a.run (uncommented text)).2 = none := by
  -- by induction on the length of the text: a lexeme comes off, or a comment with the line feed
  -- behind it
  induction size : text.length using Nat.strong_induction_on generalizing text a b done with
  | _ n ih =>
      cases text with
      | nil =>
          rw [uncommented_nil, run_nil, run_nil]
          exact ⟨level.toAbreast, rfl⟩
      | cons c rest =>
          by_cases comment : c = ';'
          · subst comment
            by_cases line : '\n' ∈ rest
            · obtain ⟨words, more, rfl, free⟩ := List.eq_append_cons_of_mem line
              have level' := level_comment level before free split
              have stop : (a.push .newline ['\n']).here.offset = a.here.offset + 1 := by
                rw [push_here, Position.after_offset]
                rfl
              rw [commentsFrom_line free, ← List.singleton_append, ← List.append_assoc] at split
              rw [run_comment b free] at clean ⊢
              rw [uncommented_line free, run_newline]
              have before' : ∀ gap ∈ done ++ [(a.here.offset, byteLength (';' :: words))],
                  gap.1 < (a.push .newline ['\n']).here.offset := by
                rw [stop]
                exact passed_comment before
              refine ih more.length ?_ clean level' before' (by rw [stop]; exact split) rfl
              simp only [List.length_cons, List.length_append] at size
              omega
            · rw [run_comment_end b line, uncommented_comment, Lexeme.read_comment_end line,
                uncommented_nil, run_nil]
              exact ⟨level.toAbreast.uncounted rfl (by simpa using line), rfl⟩
          · have closed : (Lexeme.read c rest).shape ≠ .unclosed := by
              intro shape
              rw [run] at clean
              simp [shape] at clean
            obtain ⟨a', same, level', here⟩ := level_lexeme level before split comment closed
            have stop : a'.here.offset = a.here.offset + byteLength (Lexeme.read c rest).text := by
              rw [here, Position.after_offset]
            have shorter := Lexeme.read_rest_length c rest
            rw [commentsFrom_lexeme comment] at split
            rw [run_lexeme closed] at clean ⊢
            rw [same]
            refine ih _ (size ▸ shorter) clean level' ?_ (by rw [stop]; exact split) rfl
            rw [stop]
            exact fun gap member => Nat.lt_of_lt_of_le (before gap member) (Nat.le_add_right _ _)

end Step

/-- The place of a token and the length of its text. -/
def piece (t : Token) : Nat × Nat := (t.start.offset, t.text.utf8ByteSize)

/-- The comments among some tokens. -/
def pieces (tokens : List Token) : List (Nat × Nat) := (tokens.filter (·.kind = .comment)).map piece

theorem pieces_append (a b : List Token) : pieces (a ++ b) = pieces a ++ pieces b := by
  rw [pieces, List.filter_append, List.map_append]
  rfl

theorem pieces_none {tokens : List Token} (none : ∀ t ∈ tokens, t.kind ≠ .comment) :
    pieces tokens = [] := by
  rw [pieces, List.filter_eq_nil_iff.mpr fun t member => by simpa using none t member, List.map_nil]

theorem pieces_single {t : Token} (other : t.kind ≠ .comment) : pieces [t] = [] :=
  pieces_none fun u member => by rw [List.mem_singleton.mp member]; exact other

theorem hotkey_uncommented (s : Stretch) (stop : Position) : (s.hotkey stop).kind ≠ .comment := by
  simp [Stretch.hotkey]

/-- A colon pair next would claim no comment: on this line none was read, or the line ends here. -/
def Bare (s : Scanner) (text : List Char) : Prop :=
  ∀ c ∈ text.head?, c = '\n' ∨ ∀ t ∈ s.stretch.tokens, t.kind ≠ .comment

section Take

variable {s : Scanner} {c : Char} {rest : List Char} (bare : s.Bare (c :: rest))

include bare in
theorem bare_take : (s.take (Lexeme.read c rest)).Bare (Lexeme.read c rest).rest := by
  have claimed (line : c ≠ '\n') : ∀ t ∈ s.stretch.tokens, t.kind ≠ .comment :=
    (bare c rfl).resolve_left line
  intro d next
  rcases Lexeme.read_cases c rest with
    ⟨shape, one, blank⟩ | ⟨kind, shape, _⟩ | ⟨shape, _⟩ | ⟨shape, _⟩
  · right
    rw [take, shape]
    exact claimed fun feed => by simp [feed, isBlank] at blank
  · by_cases comment : c = ';'
    · subst comment
      exact .inl ((Lexeme.read_comment rest).2.2 d next)
    · right
      rw [take, shape]
      dsimp only
      rw [push]
      split
      · exact fun t member => absurd member List.not_mem_nil
      · next free =>
          have line : c ≠ '\n' := by
            rintro rfl
            exact free List.mem_cons_self
          intro t member
          rcases List.mem_cons.mp member with rfl | old
          · exact Lexeme.read_ne_comment shape comment
          · exact claimed line t old
  · right
    rw [take, shape]
    intro t member
    rw [List.mem_singleton.mp member]
    exact hotkey_uncommented _ _
  · right
    rw [take, shape]
    exact claimed fun feed => by
      subst feed
      cases shape

include bare in
/-- A lexeme adds its piece if it is a comment. -/
theorem pieces_take : pieces (s.take (Lexeme.read c rest)).held ++
      commentsFrom id (s.take (Lexeme.read c rest)).here.offset (Lexeme.read c rest).rest =
    pieces s.held ++ commentsFrom id s.here.offset (c :: rest) := by
  rw [take_here, Position.after_offset]
  by_cases comment : c = ';'
  · subst comment
    have shape : (Lexeme.read ';' rest).shape = .token .comment := rfl
    rw [take, shape, commentsFrom_comment, id]
    dsimp only
    rw [held_push, pieces_append, List.append_assoc]
    congr 1
    rw [pieces, List.filter_cons_of_pos (by rfl), List.filter_nil, List.map_singleton, piece,
      ← byteLength_toList, String.toList_ofList]
    rfl
  rw [commentsFrom_lexeme comment]
  congr 1
  rcases Lexeme.read_cases c rest with ⟨shape, _⟩ | ⟨kind, shape, _⟩ | ⟨shape, two⟩ | ⟨shape, _⟩
  · rw [take, shape]
    rfl
  · rw [take, shape]
    dsimp only
    have nothing := pieces_single (t := ⟨kind, String.ofList (Lexeme.read c rest).text, s.here,
      s.here.after (Lexeme.read c rest).text⟩) (Lexeme.read_ne_comment shape comment)
    rw [held_push, pieces_append, nothing, List.append_nil]
  · have line : c ≠ '\n' := by
      rintro rfl
      cases shape
    have claimed : ∀ t ∈ s.stretch.tokens.reverse, t.kind ≠ .comment :=
      fun t member => (bare c rfl).resolve_left line t (List.mem_reverse.mp member)
    rw [take, shape, held, held, List.reverse_append, List.reverse_append, pieces_append,
      pieces_append, pieces_none claimed]
    have hotkey :=
      pieces_single (hotkey_uncommented s.stretch (s.here.after (Lexeme.read c rest).text))
    dsimp only
    rw [List.reverse_singleton, hotkey]
  · rw [take, shape]
    rfl

end Take

/-- The comments that a scanner finds are those of the text. -/
theorem pieces_run {s : Scanner} {text : List Char} (clean : (s.run text).2 = none)
    (bare : s.Bare text) :
    pieces (s.run text).1.held = pieces s.held ++ commentsFrom id s.here.offset text := by
  fun_induction Scanner.run s text with
  | case1 s => rw [commentsFrom_nil, List.append_nil]
  | case2 s c rest lexeme shape => cases clean
  | case3 s c rest lexeme shape ih => rw [ih clean (bare_take bare), pieces_take bare]

end Scanner

/-- A script with the text of its comments cut out. -/
def withoutComments (source : String) : String :=
  String.ofList (without (Scanner.pieces (scan source).tokens) 0 source.toList)

/-- What is cut out are the comments that the lexemes show. -/
theorem withoutComments_toList {source : String} (clean : (scan source).fault = none) :
    (withoutComments source).toList = uncommented source.toList := by
  have bare : Scanner.initial.Bare source.toList := fun _ _ => .inr fun _ member =>
    absurd member List.not_mem_nil
  have final : Scanner.pieces (scan source).tokens = commentsFrom id 0 source.toList := by
    have found := Scanner.pieces_run clean bare
    rw [scan_tokens, Scanner.pieces_append, lineTokens_eq, found]
    exact List.append_nil _
  rw [withoutComments, String.toList_ofList, final,
    ← List.nil_append (commentsFrom id 0 source.toList)]
  exact without_comments fun _ member => absurd member List.not_mem_nil

/-- Where the comments of a script were, seen from the script without them. -/
def Shift.ofComments (source : String) : Shift :=
  .insert (commentsFrom (fun _ => 0) 0 source.toList)

theorem Shift.ofComments_zero (source : String) : (ofComments source).offset 0 = 0 :=
  Scanner.offset_uncommented (List.nil_append _).symm
    (fun _ member => absurd member List.not_mem_nil)

/-- The tokens of the script without its comments are the other tokens of the script, moved. -/
theorem scan_withoutComments {source : String} (clean : (scan source).fault = none) :
    List.Forall₂ (Token.Shifted (.ofComments source)) (scan (withoutComments source)).tokens
      ((scan source).tokens.filter (·.kind != .comment)) ∧
      (scan (withoutComments source)).fault = none := by
  have level : Scanner.Level (.ofComments source) Scanner.apart .initial .initial :=
    Scanner.initial_level (Shift.ofComments_zero source)
  obtain ⟨abreast, fault⟩ := Scanner.run_uncommented clean level
    (fun _ member => absurd member List.not_mem_nil) (List.nil_append _).symm
  rw [scan, scan, withoutComments_toList clean]
  exact ⟨abreast.tokens rfl, fault⟩

end ScriptLens
