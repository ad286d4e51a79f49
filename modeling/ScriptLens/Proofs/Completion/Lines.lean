import ScriptLens.Completion
import ScriptLens.Proofs.Text.Places
import Mathlib.Data.Nat.Find

/-!
The line at the cursor. Places, findings and highlights count lines by line feeds; the cursor's line
is looked up in a text where other characters end a line too. Main statement: the two counts give
the same lines exactly where only carriage returns and line feeds stand behind the line ends of the
second kind.
-/

namespace ScriptLens

namespace LineIndex

/-- The text of a line, up to its line feed. -/
def lineText (index : LineIndex) (line : Nat) : List Char :=
  (index.tail (index.lineStart line)).takeWhile (· != '\n')

theorem takeWhile_eq_splitLines (text : List Char) :
    text.takeWhile (· != '\n') = (Text.splitLines text).getD 0 [] := by
  induction text with
  | nil => rfl
  | cons c text ih =>
      rw [Text.splitLines]
      by_cases feed : c = '\n'
      · rw [if_pos feed, feed]
        rfl
      · rw [if_neg feed, List.takeWhile_cons, if_pos (bne_iff_ne.mpr feed), ih]
        cases Text.splitLines text <;> rfl

/-- Lines are looked up behind whole lines as in the text there. -/
theorem lineText_behind (front rest : List Char) (number : Nat) :
    ((Text.dropBytes? ((Text.byteLength front :: startsAfter (Text.byteLength front) rest).getD
      number (Text.byteLength (front ++ rest))) (front ++ rest)).getD []).takeWhile (· != '\n') =
      (Text.splitLines rest).getD number [] := by
  induction number generalizing front rest with
  | zero =>
      rw [List.getD_cons_zero, Text.dropBytes?_append, Option.getD_some, takeWhile_eq_splitLines]
  | succ number ih =>
      rw [List.getD_cons_succ]
      by_cases feed : '\n' ∈ rest
      · obtain ⟨line, rest, rfl, free⟩ := List.eq_append_cons_of_mem feed
        have quiet : startsAfter (Text.byteLength front) line = [] :=
          List.length_eq_zero_iff.mp
            ((length_startsAfter _ line).trans (List.count_eq_zero.mpr free))
        have next := ih (front ++ (line ++ ['\n'])) rest
        simp only [Text.byteLength_append, Text.byteLength_cons, Text.byteLength_nil,
          List.append_assoc,
          List.cons_append, List.nil_append, ← Nat.add_assoc, Nat.add_zero] at next
        rw [Text.splitLines_feed free, List.getD_cons_succ, startsAfter_append, quiet,
          List.nil_append, startsAfter, if_pos rfl]
        simpa [Nat.add_assoc] using next
      · have quiet : startsAfter (Text.byteLength front) rest = [] :=
          List.length_eq_zero_iff.mp
            ((length_startsAfter _ rest).trans (List.count_eq_zero.mpr feed))
        have last :
            Text.dropBytes? (Text.byteLength (front ++ rest)) (front ++ rest) = some [] := by
          simpa using Text.dropBytes?_append (front ++ rest) []
        rw [quiet, Text.splitLines_line feed, List.getD_nil, List.getD_cons_succ,
          List.getD_nil, last]
        rfl

/-- Line numbers count the pieces between line feeds. -/
theorem lineText_eq (text : List Char) (number : Nat) :
    (ofText text).lineText (number + 1) = (Text.splitLines text).getD number [] := by
  have line := lineText_behind [] text number
  rw [List.nil_append] at line
  rw [← line, lineText, tail, lineStart, Nat.max_eq_left (Nat.le_add_left 1 number),
    Nat.add_sub_cancel]
  rfl

end LineIndex

namespace Completion

/-- The line of a number counted from zero where only line feeds end lines, without carriage
returns. -/
def fedLine (source : List Char) (number : Nat) : List Char :=
  ((Text.splitLines source).getD number []).filter (· != '\r')

/-- Whether a character ends a line for the cursor and for nothing else, given what stands behind
it. -/
def endsOnlyHere (c : Char) (behind : List Char) : Bool :=
  isLineEnd c && c != '\n' && !(c = '\r' && behind.head? = some '\n')

/-- Only carriage returns and line feeds stand behind the line ends that are the cursor's alone. -/
def CountsAlike (source : List Char) : Prop :=
  ∀ before c behind, source = before ++ c :: behind → endsOnlyHere c behind = true → ∀ d ∈ behind,
    d = '\r' ∨ d = '\n'

section Lines

variable {c : Char} {text : List Char} {number : Nat}

theorem countsAlike_cons : CountsAlike (c :: text) ↔
    (endsOnlyHere c text = true → ∀ d ∈ text, d = '\r' ∨ d = '\n') ∧ CountsAlike text := by
  constructor
  · intro alike
    refine ⟨alike [] c text rfl, ?_⟩
    rintro before d behind rfl
    exact alike (c :: before) d behind rfl
  · rintro ⟨first, later⟩ before d behind split
    cases before with
    | nil =>
        obtain ⟨rfl, rfl⟩ := List.cons.inj split
        exact first
    | cons e before => exact later before d behind (List.cons.inj split).2

theorem countsAlike_cons_other (other : endsOnlyHere c text = false) : CountsAlike (c :: text) ↔
      CountsAlike text := by
  rw [countsAlike_cons, other]
  simp

theorem fedLine_feed_succ : fedLine ('\n' :: text) (number + 1) = fedLine text number := rfl

theorem fedLine_zero (other : c ≠ '\n') :
    fedLine (c :: text) 0 = [c].filter (· != '\r') ++ fedLine text 0 := by
  rw [fedLine, Text.splitLines, if_neg other, fedLine, ← List.filter_append]
  cases Text.splitLines text <;> rfl

theorem fedLine_succ (other : c ≠ '\n') :
    fedLine (c :: text) (number + 1) = fedLine text (number + 1) := by
  rw [fedLine, Text.splitLines, if_neg other, fedLine]
  cases Text.splitLines text <;> rfl

theorem lineAt_return_zero : lineAt ('\r' :: '\n' :: text) 0 = [] := rfl

theorem lineAt_return_succ : lineAt ('\r' :: '\n' :: text) (number + 1) = lineAt text number := rfl

theorem cursorLines_end (ends : isLineEnd c = true) (alone : ¬(c = '\r' ∧ text.head? = some '\n')) :
    cursorLines (c :: text) = [c] :: cursorLines text := by
  rw [cursorLines.eq_def]
  split
  · next split => cases split
  · next split =>
      obtain ⟨rfl, rfl⟩ := List.cons.inj split
      exact absurd ⟨rfl, rfl⟩ alone
  · next split =>
      obtain ⟨rfl, rfl⟩ := List.cons.inj split
      rw [if_pos ends]

theorem lineAt_end_zero (ends : isLineEnd c = true) (alone : ¬(c = '\r' ∧ text.head? = some '\n')) :
    lineAt (c :: text) 0 = [c].filter fun c => c != '\n' && c != '\r' := by
  rw [lineAt, cursorLines_end ends alone]
  rfl

theorem lineAt_end_succ (ends : isLineEnd c = true) (alone : ¬(c = '\r' ∧ text.head? = some '\n')) :
    lineAt (c :: text) (number + 1) = lineAt text number := by
  rw [lineAt, cursorLines_end ends alone]
  rfl

theorem ne_feed (inside : isLineEnd c = false) : c ≠ '\n' := by
  rintro rfl
  cases inside

theorem ne_return (inside : isLineEnd c = false) : c ≠ '\r' := by
  rintro rfl
  cases inside

theorem cursorLines_inside (inside : isLineEnd c = false) : cursorLines (c :: text) =
    (c :: (cursorLines text).headD []) :: (cursorLines text).tail := by
  rw [cursorLines.eq_def]
  split
  · next split => cases split
  · next split => exact absurd (List.cons.inj split).1 (ne_return inside)
  · next split =>
      obtain ⟨rfl, rfl⟩ := List.cons.inj split
      rw [if_neg (by simp [inside])]
      cases cursorLines text <;> rfl

theorem lineAt_inside_zero (inside : isLineEnd c = false) :
    lineAt (c :: text) 0 = c :: lineAt text 0 := by
  rw [lineAt, cursorLines_inside inside, lineAt, List.getD_cons_zero, List.filter_cons, if_pos (by
    simp [ne_feed inside, ne_return inside])]
  cases cursorLines text <;> rfl

theorem lineAt_inside_succ (inside : isLineEnd c = false) :
    lineAt (c :: text) (number + 1) = lineAt text (number + 1) := by
  rw [lineAt, cursorLines_inside inside, lineAt, List.getD_cons_succ]
  cases cursorLines text <;> rfl

/-- Induction along the lines of the cursor. -/
theorem line_induction {P : List Char → Prop} (nil : P [])
    (returns : ∀ text, P text → P ('\r' :: '\n' :: text)) (ends : ∀ c text, isLineEnd c = true →
      ¬(c = '\r' ∧ text.head? = some '\n') → P text → P (c :: text))
    (inside : ∀ c text, isLineEnd c = false → P text → P (c :: text))
    (text : List Char) : P text := by
  have alone {c : Char} {text : List Char}
      (apart : ∀ rest, c = '\r' → text = '\n' :: rest → False) :
      ¬(c = '\r' ∧ text.head? = some '\n') := by
    rintro ⟨rfl, head⟩
    obtain ⟨rest, rfl⟩ := List.head?_eq_some_iff.mp head
    exact apart rest rfl rfl
  induction text using cursorLines.induct with
  | case1 => exact nil
  | case2 text ih => exact returns text ih
  | case3 c text apart ending ih => exact ends c text ending (alone apart) ih
  | case4 c text _ ending _ ih => exact inside c text (by simpa using ending) ih
  | case5 c text _ ending _ _ _ ih => exact inside c text (by simpa using ending) ih

/-- Where the cursor has a line that is not empty, the count by line feeds has come to one. -/
theorem exists_fedLine (some : lineAt text number ≠ []) :
    ∃ earlier ≤ number, fedLine text earlier ≠ [] := by
  induction text using line_induction generalizing number with
  | nil => cases number <;> exact absurd rfl some
  | returns text ih =>
      cases number with
      | zero => exact absurd lineAt_return_zero some
      | succ number =>
          obtain ⟨earlier, le, found⟩ := ih (lineAt_return_succ ▸ some)
          exact ⟨earlier + 1,
            Nat.succ_le_succ le, by rwa [fedLine_succ (by decide), fedLine_feed_succ]⟩
  | ends c text ending alone ih =>
      cases number with
      | zero =>
          rw [lineAt_end_zero ending alone] at some
          have other : c ≠ '\n' ∧ c ≠ '\r' := by
            by_contra none
            exact some (by simp_all)
          refine ⟨0, Nat.le_refl 0, ?_⟩
          rw [fedLine_zero other.1]
          simp [other.2]
      | succ number =>
          obtain ⟨earlier, le, found⟩ := ih (lineAt_end_succ ending alone ▸ some)
          by_cases feed : c = '\n'
          · rw [feed]
            exact ⟨earlier + 1, Nat.succ_le_succ le, found⟩
          · cases earlier with
            | zero => exact ⟨0, Nat.zero_le _, by rw [fedLine_zero feed]; simp [found]⟩
            | succ earlier => exact ⟨earlier + 1, Nat.le_succ_of_le le, by rwa [fedLine_succ feed]⟩
  | inside c text within ih =>
      have feed := ne_feed within
      cases number with
      | zero =>
          refine ⟨0, Nat.le_refl 0, ?_⟩
          rw [fedLine_zero feed]
          simp [ne_return within]
      | succ number =>
          obtain ⟨earlier, le, found⟩ := ih (lineAt_inside_succ within ▸ some)
          cases earlier with
          | zero => exact ⟨0, Nat.zero_le _, by rw [fedLine_zero feed]; simp [found]⟩
          | succ earlier => exact ⟨earlier + 1, le, by rwa [fedLine_succ feed]⟩

/-- A character of a line stands on some line of the cursor. -/
theorem exists_lineAt {d : Char} (member : d ∈ text) (other : ¬(d = '\r' ∨ d = '\n')) :
    ∃ number, lineAt text number ≠ [] := by
  induction text using line_induction with
  | nil => cases member
  | returns text ih =>
      have later : d ∈ text := by simpa [not_or.mp other] using member
      obtain ⟨number, found⟩ := ih later
      exact ⟨number + 1, found⟩
  | ends c text ending alone ih =>
      rcases List.mem_cons.mp member with rfl | later
      · refine ⟨0, ?_⟩
        rw [lineAt_end_zero ending alone]
        simp [not_or.mp other]
      · obtain ⟨number, found⟩ := ih later
        exact ⟨number + 1, by rwa [lineAt_end_succ ending alone]⟩
  | inside c text within ih => exact ⟨0, by rw [lineAt_inside_zero within]; simp⟩

theorem fedLine_of_ends (ends : ∀ d ∈ text, d = '\r' ∨ d = '\n') (number : Nat) :
    fedLine text number = [] := by
  induction text generalizing number with
  | nil => cases number <;> rfl
  | cons c text ih =>
      have later := ih fun d member => ends d (List.mem_cons_of_mem c member)
      rcases ends c List.mem_cons_self with rfl | rfl
      · cases number with
        | zero => rw [fedLine_zero (by decide), later]; rfl
        | succ number => rw [fedLine_succ (by decide), later]
      · cases number with
        | zero => rfl
        | succ number => rw [fedLine_feed_succ, later]

theorem lineAt_of_ends (ends : ∀ d ∈ text, d = '\r' ∨ d = '\n') (number : Nat) :
    lineAt text number = [] := by
  by_contra some
  obtain ⟨earlier, _, found⟩ := exists_fedLine some
  exact found (fedLine_of_ends ends earlier)

/-- Behind a line end of the cursor's own, the lines of the cursor are one ahead; they are the same
only if all are empty. -/
theorem ahead_iff :
    (fedLine text 0 = [] ∧ ∀ number, lineAt text number = fedLine text (number + 1)) ↔
    ∀ d ∈ text, d = '\r' ∨ d = '\n' := by
  constructor
  · rintro ⟨first, ahead⟩
    by_contra found
    push Not at found
    obtain ⟨d, member, other⟩ := found
    have exists_line := exists_lineAt member (not_or.mpr other)
    -- the first line of the cursor that is not empty comes one too early
    obtain ⟨earlier, le, full⟩ := exists_fedLine (Nat.find_spec exists_line)
    cases earlier with
    | zero => exact full first
    | succ earlier => exact Nat.find_min exists_line le (by rwa [ahead earlier])
  · intro ends
    exact ⟨fedLine_of_ends ends 0, fun number => by rw [lineAt_of_ends ends, fedLine_of_ends ends]⟩

/-- The lines at the cursor are those that line feeds end. -/
def Agrees (source : List Char) : Prop := ∀ number, lineAt source number = fedLine source number

/-- A line end of both kinds, or a character of both lines, makes no difference. -/
theorem agrees_cons {rest : List Char}
    (first : lineAt text 0 = fedLine text 0 ↔ lineAt rest 0 = fedLine rest 0)
    (later : ∀ number, lineAt text (number + 1) = lineAt rest (number + 1) ∧
      fedLine text (number + 1) = fedLine rest (number + 1)) : Agrees text ↔ Agrees rest := by
  constructor
  · intro agrees number
    cases number with
    | zero => exact first.mp (agrees 0)
    | succ number => rw [← (later number).1, ← (later number).2, agrees]
  · intro agrees number
    cases number with
    | zero => exact first.mpr (agrees 0)
    | succ number => rw [(later number).1, (later number).2, agrees]

theorem agrees_feed {rest : List Char} (first : lineAt text 0 = fedLine text 0)
    (later : ∀ number, lineAt text (number + 1) = lineAt rest number ∧
      fedLine text (number + 1) = fedLine rest number) : Agrees text ↔ Agrees rest := by
  constructor
  · intro agrees number
    rw [← (later number).1, ← (later number).2, agrees]
  · intro agrees number
    cases number with
    | zero => exact first
    | succ number => rw [(later number).1, (later number).2, agrees]

theorem agrees_own (ends : isLineEnd c = true) (feed : c ≠ '\n')
    (alone : ¬(c = '\r' ∧ text.head? = some '\n')) :
    Agrees (c :: text) ↔ ∀ d ∈ text, d = '\r' ∨ d = '\n' := by
  have same : lineAt (c :: text) 0 = [c].filter (· != '\r') := by
    have kept : (c != '\n') = true := bne_iff_ne.mpr feed
    rw [lineAt_end_zero ends alone]
    exact List.filter_congr
      fun d member => by rw [List.mem_singleton.mp member, kept, Bool.true_and]
  rw [← ahead_iff]
  constructor
  · intro agrees
    constructor
    · have first := agrees 0
      rw [same, fedLine_zero feed] at first
      simpa using first
    · intro number
      rw [← lineAt_end_succ ends alone, ← fedLine_succ feed, agrees]
  · rintro ⟨first, ahead⟩ number
    cases number with
    | zero => rw [same, fedLine_zero feed, first, List.append_nil]
    | succ number => rw [lineAt_end_succ ends alone, fedLine_succ feed, ahead]

theorem agrees_iff (source : List Char) : Agrees source ↔ CountsAlike source := by
  induction source using line_induction with
  | nil =>
      have agrees : Agrees [] := fun number => by cases number <;> rfl
      exact iff_of_true agrees fun before c behind split => by simp at split
  | returns text ih =>
      rw [countsAlike_cons_other (by simp [endsOnlyHere]),
        countsAlike_cons_other (by simp [endsOnlyHere])]
      exact (agrees_feed rfl fun _ => ⟨rfl, rfl⟩).trans ih
  | ends c text ending alone ih =>
      by_cases feed : c = '\n'
      · subst feed
        rw [countsAlike_cons_other (by simp [endsOnlyHere])]
        exact (agrees_feed rfl fun _ => ⟨lineAt_end_succ ending alone, rfl⟩).trans ih
      · have own : endsOnlyHere c text = true := by
          simp only [endsOnlyHere, ending, Bool.true_and, Bool.and_eq_true, bne_iff_ne,
            Bool.not_eq_true']
          exact ⟨feed, by simpa using alone⟩
        have only : CountsAlike (c :: text) ↔ ∀ d ∈ text, d = '\r' ∨ d = '\n' := by
          rw [countsAlike_cons, own]
          refine ⟨fun both => both.1 rfl, fun ends => ⟨fun _ => ends, ?_⟩⟩
          rintro before d behind rfl _ e member
          exact ends e (by simp [member])
        rw [only]
        exact agrees_own ending feed alone
  | inside c text within ih =>
      rw [countsAlike_cons_other (by simp [endsOnlyHere, within])]
      refine (agrees_cons ?_ fun _ =>
        ⟨lineAt_inside_succ within, fedLine_succ (ne_feed within)⟩).trans ih
      rw [lineAt_inside_zero within, fedLine_zero (ne_feed within)]
      simp [ne_return within]

end Lines

end Completion

/-- Line numbers count the pieces between line feeds, and the cursor's line of a number is the piece
of that number, for all numbers at once, exactly where behind a line end of the cursor's own only
carriage returns and line feeds follow. -/
theorem cursor_lines (source : List Char) : (∀ number,
      (LineIndex.ofText source).lineText (number + 1) = (Text.splitLines source).getD number []) ∧
      ((∀ number, Completion.lineAt source number =
          ((LineIndex.ofText source).lineText (number + 1)).filter (· != '\r')) ↔
          Completion.CountsAlike source) := by
  refine ⟨LineIndex.lineText_eq source, ?_⟩
  rw [← Completion.agrees_iff]
  refine forall_congr' fun number => ?_
  rw [LineIndex.lineText_eq, Completion.fedLine]

/-- Behind a line separator in a comment the cursor on the second line is looked up in the first
one. -/
theorem cursor_misplaced : Completion.lineAt "; a\u2028b\nT".toList 1 = ['b'] ∧
    (LineIndex.ofSource "; a\u2028b\nT").lineText 2 = ['T'] := by
  decide +kernel

end ScriptLens
