import ScriptLens.Proofs.Scan.Partition

/-!
A scanner that keeps byte offsets only: it cuts every text out of the script, and at `::` it takes
back the tokens of the line and cuts out the trigger anew. A cut that is out of range or splits a
character ends it with nothing. It never does: it gives what the scanner gives that carries the
texts along.
-/

namespace ScriptLens

/-- What the cutting scanner knows after reading part of a script. -/
structure Cutter where
  /-- All tokens so far, latest first. -/
  tokens : List Token
  here : Position
  /-- The offset of the first character of the current line. -/
  lineStart : Nat

namespace Cutter

def initial : Cutter := ⟨[], .start, 0⟩

def step (s : Cutter) (c : Char) : Cutter :=
  { s with
    here := s.here.next c
    lineStart := if c = '\n' then (s.here.next c).offset else s.lineStart }

/-- Moves on over characters, noting where lines start. -/
def advance (s : Cutter) (text : List Char) : Cutter := text.foldl step s

/-- The kind of a lexeme; that of a word is decided by the text cut out. -/
def kindOf (source : List Char) (first last : Nat) (lexeme : List Char) (kind : Kind) :
    Option Kind :=
  if lexeme.head?.any isWordStart then (Text.slice? source first last).map .ofWord else some kind

/-- Adds a token that ends here. -/
def push (source : List Char) (s : Cutter) (kind : Kind) (start : Position) : Option Cutter :=
  (Text.slice? source start.offset s.here.offset).map fun text =>
    { s with tokens := ⟨kind, String.ofList text, start, s.here⟩ :: s.tokens }

/-- Puts a hotkey that ends here, behind the colons at an offset, in place of the tokens of the
line. -/
def hotkey (source : List Char) (s : Cutter) (colon : Nat) : Option Cutter :=
  let kept := s.tokens.dropWhile fun t => decide (s.lineStart ≤ t.start.offset)
  let floor := match kept with
    | [] => s.lineStart
    | t :: _ => max t.stop.offset s.lineStart
  (Text.slice? source floor colon).bind fun front =>
    let start := floor + (Text.byteLength front - Text.byteLength (front.dropWhile isBlank))
    (Text.slice? source start colon).bind fun trigger =>
      (Text.slice? source s.lineStart start).map fun lead =>
        let text := (trigger.reverse.dropWhile isBlank).reverse ++ [':', ':']
        { s with
          tokens := ⟨.hotkey, String.ofList text, ⟨s.here.line, lead.length + 1, start⟩, s.here⟩ ::
            kept }

/-- Moves on past one lexeme. -/
def take (source : List Char) (s : Cutter) (lexeme : Lexeme) : Option Cutter :=
  let t := s.advance lexeme.text
  match lexeme.shape with
  | .token kind =>
    (kindOf source s.here.offset t.here.offset lexeme.text kind).bind fun kind =>
      t.push source kind s.here
  | .colonPair => t.hotkey source s.here.offset
  | .blank | .unclosed => some t

/-- Takes lexemes to the end of the text, or up to a string that never closes. -/
def run (source : List Char) (s : Cutter) : List Char → Option (Cutter × Option LexError)
  | [] => some (s, none)
  | c :: rest =>
    let lexeme := Lexeme.read c rest
    if lexeme.shape = .unclosed then some (s.advance lexeme.text, some (.unterminatedString s.here))
    else (s.take source lexeme).bind fun t => run source t lexeme.rest
termination_by text => text.length
decreasing_by exact Lexeme.read_rest_length c rest

/-- Scans a script by cuts, closing the tokens by the end mark. -/
def scan (source : String) : Option Scan :=
  (initial.run source.toList source.toList).bind fun (s, fault) =>
    (s.push source.toList .eof s.here).map fun t => ⟨t.tokens.reverse, fault⟩

theorem advance_append (s : Cutter) (a b : List Char) :
    s.advance (a ++ b) = (s.advance a).advance b :=
  List.foldl_append

@[simp] theorem advance_tokens (s : Cutter) (text : List Char) :
    (s.advance text).tokens = s.tokens := by
  induction text generalizing s with
  | nil => rfl
  | cons c text ih => exact ih (s.step c)

@[simp] theorem advance_here (s : Cutter) (text : List Char) :
    (s.advance text).here = s.here.after text := by
  induction text generalizing s with
  | nil => rfl
  | cons c text ih => exact ih (s.step c)

theorem advance_lineStart {s : Cutter} {text : List Char} (h : '\n' ∉ text) :
    (s.advance text).lineStart = s.lineStart := by
  induction text generalizing s with
  | nil => rfl
  | cons c text ih =>
      have other : c ≠ '\n' := by
        rintro rfl
        exact h List.mem_cons_self
      have rest : '\n' ∉ text := fun member => h (List.mem_cons_of_mem c member)
      exact (ih rest).trans (if_neg other)

theorem advance_lineStart_newline {s : Cutter} {a b : List Char} (h : '\n' ∉ b) :
    (s.advance (a ++ '\n' :: b)).lineStart = s.here.offset + Text.byteLength (a ++ ['\n']) := by
  rw [advance_append]
  have line :
      ((s.advance a).step '\n').lineStart = s.here.offset + Text.byteLength (a ++ ['\n']) := by
    simp [step, Nat.add_assoc]
  exact (advance_lineStart (s := (s.advance a).step '\n') h).trans line

end Cutter

theorem Position.after_of_notMem_newline {p : Position} {text : List Char} (h : '\n' ∉ text) :
    p.after text = ⟨p.line, p.column + text.length, p.offset + Text.byteLength text⟩ := by
  induction text generalizing p with
  | nil => rfl
  | cons c text ih =>
      have other : c ≠ '\n' := by
        rintro rfl
        exact h List.mem_cons_self
      rw [after_cons, ih fun member => h (List.mem_cons_of_mem c member)]
      simp only [next, if_neg other, List.length_cons, Text.byteLength_cons]
      congr 1 <;> omega

/-- Blanks come off the two ends of a text in either order. -/
theorem dropWhile_reverse_comm (p : Char → Bool) (text : List Char) :
    (text.reverse.dropWhile p).reverse.dropWhile p =
    ((text.dropWhile p).reverse.dropWhile p).reverse := by
  induction text with
  | nil => rfl
  | cons c text ih =>
      by_cases hc : p c = true
      · rw [List.dropWhile_cons_of_pos hc, ← ih, List.reverse_cons, List.dropWhile_append]
        split
        · next empty =>
            rw [List.isEmpty_iff.mp empty]
            simp [hc]
        · simp [hc]
      · rw [List.dropWhile_cons_of_neg hc, List.reverse_cons, List.dropWhile_append]
        split
        · simp [hc]
        · simp [hc]

namespace Cutter

/-- The cutting scanner stands where the other one does: same tokens, same place, and the line on
which the stretch starts is the current one. -/
structure Mirrors (u : Cutter) (s : Scanner) (text : List Char) : Prop where
  holds : s.Holds text
  tokens : u.tokens = s.stretch.tokens ++ s.settled
  here : u.here = s.here
  line : ∃ lines lead, text = lines ++ (lead ++ s.stretch.text.reverse) ∧
    s.stretch.start = Position.start.after (lines ++ lead) ∧ '\n' ∉ lead ∧ '\n' ∉ s.stretch.text ∧
    u.lineStart = Text.byteLength lines ∧ (Position.start.after lines).column = 1
  settled : ∀ t ∈ s.settled, t.start.offset < u.lineStart
  latest : ∀ t, s.settled.head? = some t → t.stop = s.stretch.start
  first : s.settled = [] → u.lineStart = s.stretch.start.offset

theorem initial_mirrors : initial.Mirrors Scanner.initial [] :=
  ⟨Scanner.initial_holds, rfl, rfl,
    ⟨[], [], rfl, rfl, by simp, by simp [Scanner.initial, Stretch.fresh],
    rfl, rfl⟩, by simp [Scanner.initial], by simp [Scanner.initial], fun _ => rfl⟩

namespace Mirrors

variable {u : Cutter} {s : Scanner} {text : List Char}

theorem here_offset (h : u.Mirrors s text) : u.here.offset = Text.byteLength text := by
  rw [h.here, h.holds.here, Position.after_offset, Position.start_offset, Nat.zero_add]

theorem lineStart_le (h : u.Mirrors s text) : u.lineStart ≤ s.stretch.start.offset := by
  obtain ⟨lines, lead, _, start, _, _, lineStart, _⟩ := h.line
  rw [lineStart, start]
  simp

/-- The tokens taken back at a colon pair are those of the stretch. -/
theorem kept (h : u.Mirrors s text) :
    u.tokens.dropWhile (fun t => decide (u.lineStart ≤ t.start.offset)) = s.settled := by
  have onLine : ∀ t ∈ s.stretch.tokens, decide (u.lineStart ≤ t.start.offset) = true := by
    intro t member
    have start := h.holds.stretch.start_le (List.mem_reverse.mpr member)
    exact decide_eq_true (h.lineStart_le.trans start)
  rw [h.tokens, List.dropWhile_append_of_pos onLine]
  cases settled : s.settled with
  | nil => rfl
  | cons t rest =>
      have before := h.settled t (settled ▸ List.mem_cons_self)
      exact List.dropWhile_cons_of_neg (by simpa using before)

/-- A token that holds a line feed settles all tokens so far. -/
theorem push_newline (h : u.Mirrors s text) {kind : Kind} {a b : List Char} (hkind : kind ≠ .eof)
    (hb : '\n' ∉ b) :
    Mirrors ⟨⟨kind, String.ofList (a ++ '\n' :: b), u.here, u.here.after (a ++ '\n' :: b)⟩ ::
      u.tokens, u.here.after (a ++ '\n' :: b), (u.advance (a ++ '\n' :: b)).lineStart⟩
      (s.push kind (a ++ '\n' :: b)) (text ++ (a ++ '\n' :: b)) := by
  have nonempty : a ++ '\n' :: b ≠ [] := by simp
  have holds := h.holds.push nonempty hkind
  have inside : '\n' ∈ a ++ '\n' :: b := by simp
  have lineStart :
      (u.advance (a ++ '\n' :: b)).lineStart = Text.byteLength (text ++ (a ++ ['\n'])) := by
    rw [advance_lineStart_newline hb, h.here_offset, ← Text.byteLength_append]
  simp only [Scanner.push, inside, if_true] at holds ⊢
  refine ⟨holds, ?_, ?_, ?_, ?_, ?_, ?_⟩
  · simp [h.tokens, h.here, Stretch.fresh]
  · exact congrArg (·.after (a ++ '\n' :: b)) h.here
  · refine ⟨text ++ (a ++ ['\n']), b, by simp [Stretch.fresh], ?_, hb, by simp [Stretch.fresh],
      lineStart, ?_⟩
    · simp only [Stretch.fresh, h.holds.here, ← Position.after_append]
      simp
    · rw [← List.append_assoc, Position.after_append]
      rfl
  · intro t member
    rw [lineStart]
    rcases List.mem_cons.mp member with rfl | earlier
    · rw [← h.here, h.here_offset]
      simp only [Text.byteLength_append]
      have positive : 0 < Text.byteLength ['\n'] := Text.byteLength_pos (by simp)
      omega
    · have held : t ∈ (s.stretch.tokens ++ s.settled).reverse := List.mem_reverse.mpr earlier
      have stop := h.holds.tiled.stop_le held
      obtain ⟨before, body, behind, _, covers⟩ := h.holds.tiled.place held
      have start := covers.start_lt_stop
      rw [Position.after_offset, Position.start_offset] at stop
      simp only [Text.byteLength_append]
      omega
  · intro t latest
    cases latest
    rfl
  · intro empty
    cases empty

/-- A token without a line feed joins the stretch. -/
theorem push_line (h : u.Mirrors s text) {kind : Kind} {body : List Char} (nonempty : body ≠ [])
    (hkind : kind ≠ .eof) (hbody : '\n' ∉ body) :
    Mirrors ⟨⟨kind, String.ofList body, u.here, u.here.after body⟩ :: u.tokens, u.here.after body,
        (u.advance body).lineStart⟩
      (s.push kind body) (text ++ body) := by
  have holds := h.holds.push nonempty hkind
  obtain ⟨lines, lead, whole, start, hlead, hstretch, lineStart, column⟩ := h.line
  simp only [Scanner.push, hbody, if_false] at holds ⊢
  refine ⟨holds, ?_, congrArg (·.after body) h.here, ?_, ?_, h.latest, ?_⟩
  · simp [h.tokens, h.here]
  · refine ⟨lines, lead, by simp [whole], start, hlead, by simp [hbody, hstretch], ?_, column⟩
    rw [advance_lineStart hbody, lineStart]
  · rw [advance_lineStart hbody]
    exact h.settled
  · rw [advance_lineStart hbody]
    exact h.first

theorem push (h : u.Mirrors s text) {kind : Kind} {body : List Char} (nonempty : body ≠ [])
    (hkind : kind ≠ .eof) :
    Mirrors ⟨⟨kind, String.ofList body, u.here, u.here.after body⟩ :: u.tokens, u.here.after body,
        (u.advance body).lineStart⟩
      (s.push kind body) (text ++ body) := by
  by_cases inside : '\n' ∈ body
  · obtain ⟨b, a, split, hb⟩ := List.eq_append_cons_of_mem (List.mem_reverse.mpr inside)
    have parts : body = a.reverse ++ '\n' :: b.reverse := by
      have flipped := congrArg List.reverse split
      simpa using flipped
    rw [parts]
    exact h.push_newline hkind (by simpa using hb)
  · exact h.push_line nonempty hkind inside

/-- What the stretch and what follows it are cut to. -/
theorem floor (h : u.Mirrors s text) :
    (match s.settled with
      | [] => u.lineStart
      | t :: _ => max t.stop.offset u.lineStart) = s.stretch.start.offset := by
  have below := h.lineStart_le
  cases settled : s.settled with
  | nil => exact h.first settled
  | cons t rest =>
      have stop := h.latest t (by rw [settled]; rfl)
      change max t.stop.offset u.lineStart = s.stretch.start.offset
      rw [stop]
      exact max_eq_left below

/-- The place behind text on the current line, from its column and the bytes before it. -/
theorem place (h : u.Mirrors s text) {lines mid behind : List Char}
    (whole : text = lines ++ (mid ++ behind))
    (noFeed : '\n' ∉ mid ++ behind) (column : (Position.start.after lines).column = 1) :
    (⟨u.here.line, mid.length + 1, Text.byteLength lines + Text.byteLength mid⟩ : Position) =
      Position.start.after (lines ++ mid) := by
  have hmid : '\n' ∉ mid := fun member => noFeed (List.mem_append_left behind member)
  rw [h.here, h.holds.here, whole, Position.after_append, Position.after_of_notMem_newline noFeed,
    Position.after_append, Position.after_of_notMem_newline hmid, column, Position.after_offset]
  simp [Nat.add_comm]

/-- At a colon pair all three cuts are good and give the hotkey of the stretch. -/
theorem hotkey (h : u.Mirrors s text) (behind : List Char) :
    (u.advance [':', ':']).hotkey (text ++ ':' :: ':' :: behind) u.here.offset =
      some ⟨s.stretch.hotkey (s.here.after [':', ':']) :: s.settled, s.here.after [':', ':'],
        u.lineStart⟩ := by
  obtain ⟨lines, lead, whole, start, hlead, hstretch, lineStart, column⟩ := h.line
  have noFeed : '\n' ∉ ([':', ':'] : List Char) := by decide
  generalize hgap : s.stretch.text.reverse.takeWhile isBlank = gap
  generalize htrigger : s.stretch.text.reverse.dropWhile isBlank = trigger
  have front : s.stretch.text.reverse = gap ++ trigger := by
    rw [← hgap, ← htrigger, List.takeWhile_append_dropWhile]
  rw [front] at whole
  have onLine : '\n' ∉ lead ++ gap ++ trigger := by
    rw [List.append_assoc, ← front]
    simpa using ⟨hlead, hstretch⟩
  have hfloor : s.stretch.start.offset = Text.byteLength (lines ++ lead) := by
    rw [start, Position.after_offset, Position.start_offset, Nat.zero_add]
  have hcolon :
      u.here.offset = Text.byteLength (lines ++ lead) + Text.byteLength (gap ++ trigger) := by
    rw [h.here_offset, whole, ← List.append_assoc, Text.byteLength_append]
  have hstart : Text.byteLength (lines ++ lead) +
      (Text.byteLength (gap ++ trigger) - Text.byteLength trigger) =
      Text.byteLength lines + Text.byteLength (lead ++ gap) := by
    simp only [Text.byteLength_append]
    omega
  have cutFront : Text.slice? (text ++ ':' :: ':' :: behind) (Text.byteLength (lines ++ lead))
      (Text.byteLength (lines ++ lead) + Text.byteLength (gap ++ trigger)) =
      some (gap ++ trigger) :=
    Text.slice?_of_eq (c := ':' :: ':' :: behind) (by simp [whole]) rfl rfl
  have cutTrigger : Text.slice? (text ++ ':' :: ':' :: behind)
      (Text.byteLength lines + Text.byteLength (lead ++ gap))
      (Text.byteLength (lines ++ lead) + Text.byteLength (gap ++ trigger)) = some trigger :=
    Text.slice?_of_eq (a := lines ++ (lead ++ gap)) (c := ':' :: ':' :: behind) (by simp [whole])
      (by simp) (by simp [Nat.add_assoc])
  have cutLead : Text.slice? (text ++ ':' :: ':' :: behind) (Text.byteLength lines)
      (Text.byteLength lines + Text.byteLength (lead ++ gap)) = some (lead ++ gap) :=
    Text.slice?_of_eq (c := trigger ++ ':' :: ':' :: behind) (by simp [whole]) rfl rfl
  have split : text = lines ++ (lead ++ gap ++ trigger) := by rw [whole, List.append_assoc]
  have hplace := h.place split onLine column
  have line : (u.here.after [':', ':']).line = u.here.line := by
    rw [Position.after_of_notMem_newline noFeed]
  have trimmed : (gap ++ trigger).dropWhile isBlank = trigger := by rw [← front, htrigger]
  unfold Cutter.hotkey
  rw [advance_tokens, advance_lineStart noFeed, h.kept]
  dsimp only
  rw [h.floor, hfloor, hcolon, cutFront, Option.bind_some, trimmed, hstart, cutTrigger,
    Option.bind_some,
    lineStart, cutLead, Option.map_some, advance_here, line, hplace, h.here, ← lineStart]
  simp only [Stretch.hotkey, hgap, ← htrigger, ← dropWhile_reverse_comm, List.reverse_reverse]
  rw [start, ← Position.after_append, List.append_assoc]

theorem colonPair (h : u.Mirrors s text) (behind : List Char) :
    Mirrors ⟨s.stretch.hotkey (s.here.after [':', ':']) :: s.settled, s.here.after [':', ':'],
      u.lineStart⟩ (s.take ⟨.colonPair, [':', ':'], behind⟩) (text ++ [':', ':']) := by
  obtain ⟨lines, lead, whole, start, hlead, hstretch, lineStart, column⟩ := h.line
  refine ⟨h.holds.colonPair behind, rfl, rfl, ?_, h.settled, h.latest, h.first⟩
  exact ⟨lines, lead, by simp [Scanner.take, whole], start,
    hlead, by simpa [Scanner.take] using hstretch, lineStart, column⟩

theorem blank (h : u.Mirrors s text) {c : Char} (hc : isBlank c = true) (behind : List Char)
    (holds : (s.take ⟨.blank, [c], behind⟩).Holds (text ++ [c])) :
    (u.advance [c]).Mirrors (s.take ⟨.blank, [c], behind⟩) (text ++ [c]) := by
  obtain ⟨lines, lead, whole, start, hlead, hstretch, lineStart, column⟩ := h.line
  have noFeed : '\n' ∉ [c] := by
    intro member
    rw [← List.mem_singleton.mp member] at hc
    revert hc
    decide
  refine ⟨holds, ?_, ?_, ?_, ?_, h.latest, ?_⟩
  · exact (advance_tokens u [c]).trans h.tokens
  · exact (advance_here u [c]).trans (congrArg (·.after [c]) h.here)
  · refine ⟨lines, lead, by simp [Scanner.take, whole], start, hlead, ?_, ?_, column⟩
    · simpa [Scanner.take] using ⟨by simpa using noFeed, hstretch⟩
    · rw [advance_lineStart noFeed, lineStart]
  · rw [advance_lineStart noFeed]
    exact h.settled
  · rw [advance_lineStart noFeed]
    exact h.first

/-- One lexeme more: the cuts are good, and both scanners move on alike. -/
theorem take (h : u.Mirrors s text) (c : Char) (rest : List Char)
    (closed : (Lexeme.read c rest).shape ≠ .unclosed) :
    ∃ v, u.take (text ++ c :: rest) (Lexeme.read c rest) = some v ∧
      v.Mirrors (s.take (Lexeme.read c rest)) (text ++ (Lexeme.read c rest).text) := by
  have holds := h.holds.take c rest closed
  have whole := Lexeme.read_append c rest
  have word := Lexeme.read_word c rest
  have nonempty := Lexeme.read_text_ne_nil c rest
  have cases := Lexeme.read_cases c rest
  generalize Lexeme.read c rest = lexeme at *
  obtain ⟨shape, body, behind⟩ := lexeme
  dsimp only at cases closed holds whole word nonempty ⊢
  rcases cases with ⟨rfl, rfl, hc⟩ | ⟨kind, rfl, hkind⟩ | ⟨rfl, rfl⟩ | ⟨rfl, _⟩
  · exact ⟨u.advance [c], rfl, h.blank hc behind holds⟩
  · refine ⟨_, ?_, h.push nonempty hkind⟩
    have cut :
        Text.slice? (text ++ c :: rest) u.here.offset (u.here.after body).offset = some body := by
      rw [Position.after_offset, h.here_offset]
      exact Text.slice?_of_eq (c := behind) (by rw [whole]) rfl rfl
    have decided : kindOf (text ++ c :: rest) u.here.offset (u.here.after body).offset body kind =
        some kind := by
      unfold kindOf
      split
      · next first =>
          rw [cut, Option.map_some, Shape.token.inj (word first)]
      · rfl
    simp only [Cutter.take, advance_here, decided, Option.bind_some, Cutter.push, cut,
      Option.map_some, advance_tokens]
  · refine ⟨_, ?_, h.colonPair behind⟩
    have colons : text ++ c :: rest = text ++ ':' :: ':' :: behind := by rw [← whole]; rfl
    rw [colons]
    exact h.hotkey behind
  · exact absurd rfl closed

/-- Both scanners run alike over the rest of the script. -/
theorem run (h : u.Mirrors s text) (more : List Char) :
    ∃ v, u.run (text ++ more) more = some (v, (s.run more).2) ∧
      v.tokens = (s.run more).1.stretch.tokens ++ (s.run more).1.settled ∧
      v.here = (s.run more).1.here := by
  fun_induction Scanner.run s more generalizing u text with
  | case1 s => exact ⟨u, by rw [Cutter.run], h.tokens, h.here⟩
  | case2 s c rest lexeme =>
      rename_i shape
      refine ⟨u.advance lexeme.text, ?_, ?_, ?_⟩
      · rw [Cutter.run, if_pos shape, h.here]
      · rw [advance_tokens, h.tokens]
        simp only [Scanner.take, shape]
      · rw [advance_here, h.here]
        simp only [Scanner.take, shape]
  | case3 s c rest lexeme shape =>
      rename_i ih
      obtain ⟨v, taken, mirrors⟩ := h.take c rest shape
      obtain ⟨w, ran, tokens, here⟩ := ih mirrors
      refine ⟨w, ?_, tokens, here⟩
      rw [List.append_assoc, Lexeme.read_append] at ran
      rw [Cutter.run, if_neg shape, taken, Option.bind_some, ran]

end Mirrors

/-- No cut goes wrong, and cutting gives what carrying the texts along gives. -/
theorem scan_eq (source : String) : Cutter.scan source = some (ScriptLens.scan source) := by
  obtain ⟨v, ran, tokens, here⟩ := initial_mirrors.run source.toList
  have edge : v.here.offset = Text.byteLength source.toList := by
    rw [here, Scanner.run_here, Position.after_offset]
    exact Nat.zero_add _
  have cut : Text.slice? source.toList v.here.offset v.here.offset = some [] :=
    Text.slice?_of_eq (a := source.toList) (c := []) (by simp) edge (by simpa using edge)
  rw [here] at cut
  rw [List.nil_append] at ran
  simp only [Cutter.scan, ran, Option.bind_some, Cutter.push, here, cut, Option.map_some,
    ScriptLens.scan, Scanner.tokens, tokens]
  simp

end Cutter

/-- The tokens of a script in which every string closes partition it, and no cut that the scan of
any script makes is out of range or splits a character. -/
theorem tokenize_partition (source : String) :
    (∀ tokens, tokenize source = .ok tokens → Partition source tokens) ∧
      Cutter.scan source = some (scan source) := by
  refine ⟨?_, Cutter.scan_eq source⟩
  intro tokens h
  unfold tokenize at h
  dsimp only at h
  split at h
  · next clean =>
      cases h
      exact partition_of_fault_none clean
  · cases h

/-- Two colon pairs on a line that a string over two lines has entered. -/
theorem tokenize_partition_hotkey :
    ∃ tokens, tokenize "\"a\nb\" é :: c:: d" = .ok tokens ∧
      tokens.map (·.text) = ["\"a\nb\"", "é :: c::", "d", ""] ∧
      Partition "\"a\nb\" é :: c:: d" tokens := by
  have h : tokenize "\"a\nb\" é :: c:: d" = .ok
      [⟨.string, "\"a\nb\"", ⟨1, 1, 0⟩, ⟨2, 3, 5⟩⟩, ⟨.hotkey, "é :: c::", ⟨2, 4, 6⟩, ⟨2, 12, 15⟩⟩,
        ⟨.identifier, "d", ⟨2, 13, 16⟩, ⟨2, 14, 17⟩⟩, ⟨.eof, "", ⟨2, 14, 17⟩, ⟨2, 14, 17⟩⟩] := by
    decide +kernel
  exact ⟨_, h, rfl, (tokenize_partition _).1 _ h⟩

end ScriptLens
