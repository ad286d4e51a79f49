import ScriptLens.Proofs.Shift.Scan
import ScriptLens.Proofs.Text.Matching
import ScriptLens.Proofs.Text.Places
import Mathlib.Algebra.GroupWithZero.Nat

/-!
Texts with a carriage return in front of every line feed. Lines and columns of such a text are those
of the text without them, and so is everything that is found line by line or by patterns that hold
no part of a line's end.
-/

namespace ScriptLens

namespace Text

/-- The text with a carriage return in front of every line feed. -/
def withReturns (text : List Char) : List Char :=
  text.flatMap fun c => if c = '\n' then ['\r', '\n'] else [c]

@[simp] theorem withReturns_nil : withReturns [] = [] := rfl

@[simp] theorem withReturns_append (a b : List Char) :
    withReturns (a ++ b) = withReturns a ++ withReturns b :=
  List.flatMap_append

theorem withReturns_feed (text : List Char) :
    withReturns ('\n' :: text) = '\r' :: '\n' :: withReturns text :=
  rfl

theorem withReturns_cons {c : Char} (other : c ≠ '\n') (text : List Char) :
    withReturns (c :: text) = c :: withReturns text := by
  rw [withReturns, List.flatMap_cons, if_neg other]
  rfl

/-- Within a line nothing changes. -/
theorem withReturns_line {line : List Char} (free : '\n' ∉ line) : withReturns line = line := by
  induction line with
  | nil => rfl
  | cons c line ih =>
      rw [List.mem_cons, not_or] at free
      rw [withReturns_cons (Ne.symm free.1), ih free.2]

theorem mem_withReturns {c : Char} {text : List Char} (member : c ∈ withReturns text) :
    c ∈ text ∨ c = '\r' := by
  obtain ⟨d, inside, among⟩ := List.mem_flatMap.mp member
  split at among
  · next feed =>
      rcases List.mem_cons.mp among with rfl | last
      · exact .inr rfl
      · rw [List.mem_singleton.mp last]
        exact .inl (feed ▸ inside)
  · rw [List.mem_singleton.mp among]
    exact .inl inside

theorem feed_mem_withReturns {text : List Char} : '\n' ∈ withReturns text ↔ '\n' ∈ text := by
  constructor
  · intro member
    exact (mem_withReturns member).resolve_right (by decide)
  · intro member
    exact List.mem_flatMap.mpr ⟨'\n', member, by simp⟩

theorem byteLength_withReturns (text : List Char) :
    byteLength (withReturns text) = byteLength text + text.count '\n' := by
  induction text with
  | nil => rfl
  | cons c text ih =>
      by_cases feed : c = '\n'
      · subst feed
        have size : '\r'.utf8Size = 1 := rfl
        rw [withReturns_feed, byteLength_cons, byteLength_cons, byteLength_cons, ih,
          List.count_cons_self, size]
        omega
      · rw [withReturns_cons feed, byteLength_cons, byteLength_cons, ih, List.count_cons_of_ne feed,
          Nat.add_assoc]

theorem count_withReturns (text : List Char) : (withReturns text).count '\n' = text.count '\n' := by
  induction text with
  | nil => rfl
  | cons c text ih =>
      by_cases feed : c = '\n'
      · subst feed
        rw [withReturns_feed, List.count_cons_of_ne (by decide), List.count_cons_self,
          List.count_cons_self, ih]
      · rw [withReturns_cons feed, List.count_cons_of_ne feed, List.count_cons_of_ne feed, ih]

theorem wholeLines_withReturns {text : List Char} (whole : WholeLines text) :
    WholeLines (withReturns text) := by
  intro c last
  cases ends : text.getLast? with
  | none =>
      rw [List.getLast?_eq_none_iff.mp ends] at last
      cases last
  | some d =>
      obtain ⟨front, rfl⟩ := List.getLast?_eq_some_iff.mp ends
      rw [whole d ends, withReturns_append, withReturns_feed, withReturns_nil,
        List.getLast?_append] at last
      exact (Option.some.inj last).symm

section Class

variable {cls : Char → Bool} (feed : cls '\n' = true) (ret : cls '\r' = true)

include feed ret

theorem takeWhile_withReturns (text : List Char) :
    (withReturns text).takeWhile cls = withReturns (text.takeWhile cls) := by
  induction text with
  | nil => rfl
  | cons c text ih =>
      by_cases line : c = '\n'
      · subst line
        rw [withReturns_feed, List.takeWhile_cons_of_pos ret, List.takeWhile_cons_of_pos feed,
          List.takeWhile_cons_of_pos feed, ih, withReturns_feed]
      · rw [withReturns_cons line, List.takeWhile_cons, List.takeWhile_cons]
        split
        · rw [ih, withReturns_cons line]
        · rfl

theorem dropWhile_withReturns (text : List Char) :
    (withReturns text).dropWhile cls = withReturns (text.dropWhile cls) := by
  induction text with
  | nil => rfl
  | cons c text ih =>
      by_cases line : c = '\n'
      · subst line
        rw [withReturns_feed, List.dropWhile_cons_of_pos ret, List.dropWhile_cons_of_pos feed,
          List.dropWhile_cons_of_pos feed, ih]
      · rw [withReturns_cons line, List.dropWhile_cons, List.dropWhile_cons]
        split
        · exact ih
        · rw [withReturns_cons line]

end Class

theorem isVoid_withReturns (text : List Char) : isVoid (withReturns text) = isVoid text := by
  rw [isVoid, isVoid]
  induction text with
  | nil => rfl
  | cons c text ih =>
      by_cases feed : c = '\n'
      · subst feed
        rw [withReturns_feed, List.all_cons, List.all_cons, List.all_cons, ih]
        rfl
      · rw [withReturns_cons feed, List.all_cons, List.all_cons, ih]

/-- The lines are the same: each gives back the carriage return that was put behind it. -/
theorem lines_withReturns {text : List Char} (clean : '\r' ∉ text) :
    lines (withReturns text) = lines text := by
  -- by induction on the length of the text: the first line and its line feed come off
  induction size : text.length using Nat.strong_induction_on generalizing text with
  | _ n ih =>
      by_cases feed : '\n' ∈ text
      · obtain ⟨first, rest, rfl, free⟩ := List.eq_append_cons_of_mem feed
        rw [List.mem_append, List.mem_cons, not_or, not_or] at clean
        have free' : '\n' ∉ first ++ ['\r'] := by simpa using free
        have whole : withReturns (first ++ '\n' :: rest) =
            (first ++ ['\r']) ++ '\n' :: withReturns rest := by
          rw [withReturns_append, withReturns_line free, withReturns_feed]
          simp
        have stripped : stripReturn (first ++ ['\r']) = stripReturn first := by
          have last : first.getLast? ≠ some '\r' := fun last => clean.1 (List.mem_of_getLast? last)
          rw [stripReturn, stripReturn, List.getLast?_concat, if_pos rfl,
            List.dropLast_concat, if_neg last]
        rw [whole, lines_feed free', lines_feed free, stripped,
          ih rest.length (by simp at size; omega) clean.2.2 rfl]
      · rw [withReturns_line feed]

/-- The text without carriage returns. -/
def withoutReturns (text : List Char) : List Char := text.filter (· != '\r')

theorem withoutReturns_withReturns {text : List Char} (clean : '\r' ∉ text) :
    withoutReturns (withReturns text) = text := by
  induction text with
  | nil => rfl
  | cons c text ih =>
      rw [List.mem_cons, not_or] at clean
      rw [withoutReturns] at ih ⊢
      by_cases feed : c = '\n'
      · subst feed
        rw [withReturns_feed, List.filter_cons_of_neg (by decide),
          List.filter_cons_of_pos (by decide), ih clean.2]
      · rw [withReturns_cons feed,
          List.filter_cons_of_pos (by simpa using Ne.symm clean.1), ih clean.2]

/-- A line feed follows on every carriage return. -/
def Fed (text : List Char) : Prop :=
  ∀ front back, text = front ++ '\r' :: back → back.head? = some '\n'

theorem fed_withReturns {text : List Char} (clean : '\r' ∉ text) : Fed (withReturns text) := by
  induction text with
  | nil =>
      intro front back split
      cases front <;> cases split
  | cons c text ih =>
      rw [List.mem_cons, not_or] at clean
      intro front back split
      by_cases feed : c = '\n'
      · subst feed
        rw [withReturns_feed] at split
        match front, split with
        | [], split =>
            cases split
            rfl
        | [d], split => cases split
        | d :: e :: front, split =>
            obtain ⟨_, _, rest⟩ :
              '\r' = d ∧ '\n' = e ∧ withReturns text = front ++ '\r' :: back := by simpa using split
            exact ih clean.2 front back rest
      · rw [withReturns_cons feed] at split
        cases front with
        | nil => exact absurd (List.cons.inj split).1.symm clean.1
        | cons d front => exact ih clean.2 front back (List.cons.inj split).2

theorem Fed.behind {front back : List Char} (h : Fed (front ++ back)) : Fed back := by
  intro first rest split
  exact h (front ++ first) rest (by rw [split, List.append_assoc])

namespace Pattern

/-- Whether a single character comes first. -/
def isLed : Pattern → Bool
  | .one _ :: _ => true
  | _ => false

/-- A pattern whose pieces stop short of line ends: what may hold a line feed may hold a carriage
return too, and stands before a character that is neither. -/
def firm : Pattern → Bool
  | [] => true
  | .one cls :: items => !cls '\n' && !cls '\r' && firm items
  | .some cls :: items => (cls '\r' || !cls '\n') && isLed items && firm items
  | _ => false

variable {p : Pattern} {cls : Char → Bool}

theorem firm_one (h : firm (.one cls :: p) = true) :
    cls '\n' = false ∧ cls '\r' = false ∧ firm p = true := by
  rw [firm] at h
  simpa [and_assoc] using h

theorem firm_some (h : firm (.some cls :: p) = true) :
    (cls '\n' = true → cls '\r' = true) ∧ isLed p = true ∧ firm p = true := by
  rw [firm] at h
  obtain ⟨front, firm⟩ := Bool.and_eq_true_iff.mp h
  obtain ⟨ret, led⟩ := Bool.and_eq_true_iff.mp front
  refine ⟨fun feed => ?_, led, firm⟩
  rw [feed] at ret
  simpa using ret

theorem spells_withReturns {before : Option Char} {text : List Char} {m : Match}
    (spells : Spells p before text m) :
    firm p = true → ∀ before', ∃ m', Spells p before' (withReturns text) m' := by
  induction spells with
  | nil => exact fun _ before' => ⟨_, .nil⟩
  | @item items before piece rest m item fits spells ih =>
      intro firm before'
      -- what a piece becomes fits as well
      have fits' : Item.Fits before' (withReturns piece) (withReturns rest) item ∧
          Pattern.firm items = true := by
        match item, firm with
        | .one cls, firm =>
            obtain ⟨feed, _, firm⟩ := firm_one firm
            obtain ⟨c, rfl, inside⟩ := fits
            have other : c ≠ '\n' := by
              rintro rfl
              rw [feed] at inside
              cases inside
            exact ⟨⟨c, withReturns_cons other [], inside⟩, firm⟩
        | .some cls, firm =>
            obtain ⟨ret, _, firm⟩ := firm_some firm
            obtain ⟨solid, inside⟩ := fits
            refine ⟨⟨fun empty => solid ?_, fun c member => ?_⟩, firm⟩
            · have length := congrArg byteLength empty
              rw [byteLength_withReturns, byteLength_nil] at length
              by_contra other
              have positive := byteLength_pos other
              omega
            · obtain ⟨d, among, here⟩ := List.mem_flatMap.mp member
              split at here
              · next feed =>
                  rw [feed] at among
                  rcases List.mem_cons.mp here with rfl | last
                  · exact ret (inside _ among)
                  · rw [List.mem_singleton.mp last]
                    exact inside _ among
              · rw [List.mem_singleton.mp here]
                exact inside _ among
      obtain ⟨m', spells'⟩ := ih fits'.2 ((withReturns piece).getLast?.or before')
      rw [withReturns_append]
      exact ⟨_, .item item fits'.1 spells'⟩

/-- A led pattern starts with a character that ends no line. -/
theorem Spells.led {before : Option Char} {text : List Char} {m : Match}
    (spells : Spells p before text m)
    (led : isLed p = true) (firm : firm p = true) : ∃ c rest, text = c :: rest ∧ c ≠ '\n' := by
  cases spells with
  | nil => cases led
  | @item items _ piece rest m item fits spells =>
      cases item with
      | one cls =>
          obtain ⟨feed, _, _⟩ := firm_one firm
          obtain ⟨c, rfl, inside⟩ := fits
          refine ⟨c, rest, rfl, ?_⟩
          rintro rfl
          rw [feed] at inside
          cases inside
      | _ => cases led

theorem spells_withoutReturns {before : Option Char} {text : List Char} {m : Match}
    (spells : Spells p before text m) :
    firm p = true → Fed text → ∀ before', ∃ m', Spells p before' (withoutReturns text) m' := by
  induction spells with
  | nil => exact fun _ _ before' => ⟨_, .nil⟩
  | @item items before piece rest m item fits spells ih =>
      intro firm fed before'
      have fits' : Item.Fits before' (withoutReturns piece) (withoutReturns rest) item ∧
          Pattern.firm items = true := by
        match item, firm with
        | .one cls, firm =>
            obtain ⟨_, ret, firm⟩ := firm_one firm
            obtain ⟨c, rfl, inside⟩ := fits
            have other : c ≠ '\r' := by
              rintro rfl
              rw [ret] at inside
              cases inside
            exact ⟨⟨c, List.filter_cons_of_pos (by simpa using other), inside⟩, firm⟩
        | .some cls, firm =>
            obtain ⟨_, led, firm⟩ := firm_some firm
            obtain ⟨solid, inside⟩ := fits
            refine ⟨⟨fun empty => ?_, fun c member => inside c (List.mem_filter.mp member).1⟩, firm⟩
            -- a piece of carriage returns alone would stand before a line feed
            have last : piece.getLast solid = '\r' := by
              simpa using List.filter_eq_nil_iff.mp empty _ (List.getLast_mem solid)
            obtain ⟨c, behind, rfl, other⟩ := spells.led led firm
            have split : piece ++ c :: behind = piece.dropLast ++ '\r' :: (c :: behind) := by
              rw [← last, ← List.singleton_append (l := c :: behind), ← List.append_assoc,
                List.dropLast_concat_getLast]
            exact other (Option.some.inj (fed _ _ split))
      obtain ⟨m', spells'⟩ := ih fits'.2 fed.behind ((withoutReturns piece).getLast?.or before')
      rw [withoutReturns, List.filter_append]
      exact ⟨_, .item item fits'.1 spells'⟩

/-- A firm pattern occurs with carriage returns where it occurs without them. -/
theorem occurs_withReturns {text : List Char} (clean : '\r' ∉ text) (firm : firm p = true) :
    p.occurs (withReturns text) = p.occurs text := by
  rw [Bool.eq_iff_iff, occurs_iff, occurs_iff]
  constructor
  · rintro ⟨skipped, rest, m, split, spells⟩
    have fed := fed_withReturns clean
    rw [split] at fed
    obtain ⟨m', spells'⟩ :=
      spells_withoutReturns spells firm fed.behind (withoutReturns skipped).getLast?
    refine ⟨_, _, m', ?_, spells'⟩
    rw [withoutReturns, withoutReturns, ← List.filter_append, ← split]
    exact (withoutReturns_withReturns clean).symm
  · rintro ⟨skipped, rest, m, rfl, spells⟩
    obtain ⟨m', spells'⟩ := spells_withReturns spells firm (withReturns skipped).getLast?
    exact ⟨_, _, m', withReturns_append _ _, spells'⟩

end Pattern

/-- The line feeds of a text from an offset on, one byte before each. -/
def returnGaps (offset : Nat) : List Char → List (Nat × Nat)
  | [] => []
  | c :: text => (if c = '\n' then [(offset, 1)] else []) ++ returnGaps (offset + c.utf8Size) text

theorem returnGaps_append (offset : Nat) (a b : List Char) :
    returnGaps offset (a ++ b) = returnGaps offset a ++ returnGaps (offset + byteLength a) b := by
  induction a generalizing offset with
  | nil => rfl
  | cons c a ih =>
      rw [List.cons_append, returnGaps, returnGaps, ih, byteLength_cons,
        List.append_assoc, Nat.add_assoc]

theorem returnGaps_within {offset : Nat} {text : List Char} {gap : Nat × Nat}
    (member : gap ∈ returnGaps offset text) :
    offset ≤ gap.1 ∧ gap.1 < offset + byteLength text := by
  induction text generalizing offset with
  | nil => cases member
  | cons c text ih =>
      have size := c.utf8Size_pos
      rw [byteLength_cons]
      rcases List.mem_append.mp member with here | later
      · split at here
        · rw [List.mem_singleton.mp here]
          omega
        · cases here
      · have inside := ih later
        omega

theorem sum_returnGaps (offset : Nat) (text : List Char) :
    ((returnGaps offset text).map Prod.snd).sum = text.count '\n' := by
  induction text generalizing offset with
  | nil => rfl
  | cons c text ih =>
      rw [returnGaps, List.map_append, List.sum_append, ih]
      by_cases feed : c = '\n'
      · rw [if_pos feed, feed, List.count_cons_self, Nat.add_comm]
        rfl
      · rw [if_neg feed, List.count_cons_of_ne feed]
        exact Nat.zero_add _

end Text

open Text

/-- The move of offsets when carriage returns are put into a text. -/
def Shift.ofReturns (text : List Char) : Shift := .insert (returnGaps 0 text)

theorem Position.after_withReturns_place (p : Position) (text : List Char) :
    (p.after (withReturns text)).line = (p.after text).line ∧
    (p.after (withReturns text)).column = (p.after text).column := by
  induction text generalizing p with
  | nil => exact ⟨rfl, rfl⟩
  | cons c text ih =>
      by_cases feed : c = '\n'
      · subst feed
        rw [withReturns_feed, after_cons, after_cons, after_cons]
        obtain ⟨line, column⟩ := ih ((p.next '\r').next '\n')
        rw [line, column,
          after_of_shift (p := p.next '\n') (q := (p.next '\r').next '\n') text rfl rfl]
        exact ⟨rfl, rfl⟩
      · rw [withReturns_cons feed, after_cons, after_cons]
        exact ih _

/-- Places are moved. -/
theorem Position.after_withReturns {text front back : List Char} (split : text = front ++ back) :
    Position.start.after (withReturns front) =
    (Position.start.after front).shift (.ofReturns text) := by
  obtain ⟨line, column⟩ := Position.start.after_withReturns_place front
  have offset :
      (Shift.ofReturns text).offset (byteLength front) = byteLength front + front.count '\n' := by
    rw [Shift.ofReturns, split, returnGaps_append, Nat.zero_add, ← sum_returnGaps 0 front]
    refine Shift.insert_offset (fun gap member => ?_) fun gap member => (returnGaps_within member).1
    have within := (returnGaps_within member).2
    rwa [Nat.zero_add] at within
  have whole :
      (Position.start.after (withReturns front)).offset = byteLength front + front.count '\n' := by
    rw [after_offset, start_offset, byteLength_withReturns, Nat.zero_add]
  rw [shift, after_offset, start_offset, Nat.zero_add, offset, ← line, ← column, ← whole]

theorem Shift.ofReturns_zero (text : List Char) : (Shift.ofReturns text).offset 0 = 0 :=
  (congrArg Position.offset (Position.after_withReturns (List.nil_append text).symm)).symm

end ScriptLens
