import ScriptLens.Proofs.Brackets.Order
import ScriptLens.Lint.Brackets
import Mathlib.Order.Bounds.Defs
import Mathlib.Data.Int.Order.Basic
import Mathlib.Order.MinMax

/-!
Brackets by counting. Matching with a stack finds what counting finds: a closing bracket has no
partner where more brackets were closed than opened, and more than at any place before; an opening
one has none where all that is read from there on opens more brackets than it closes. Main
statement: the findings are those brackets, and there are none exactly where the brackets are
nested.
-/

namespace ScriptLens.Lint

namespace Bracket

/-- How many more brackets of a kind are closed than opened. -/
def excess (b : Bracket) (tokens : List Token) : Int :=
  tokens.countP (·.kind = b.closing) - tokens.countP (·.kind = b.opening)

/-- How many more brackets are closed than opened, wherever reading stops. -/
def excesses (b : Bracket) (tokens : List Token) : Set Int :=
  {count | ∃ length, count = b.excess (tokens.take length)}

/-- The token at a place closes more brackets than were opened, and than were closed too many
anywhere before. -/
def Overruns (b : Bracket) (tokens : List Token) (place : Nat) : Prop :=
  (∃ t ∈ tokens[place]?, t.kind = b.closing) ∧
    ∀ earlier ≤ place, b.excess (tokens.take earlier) < b.excess (tokens.take (place + 1))

/-- The token at a place opens a bracket, and wherever reading from there stops, more are opened
than closed. -/
def StaysOpen (b : Bracket) (tokens : List Token) (place : Nat) : Prop :=
  (∃ t ∈ tokens[place]?, t.kind = b.opening) ∧
    ∀ later ≤ tokens.length, place < later → b.excess ((tokens.take later).drop place) < 0

instance (b : Bracket) (tokens : List Token) : DecidablePred (b.Overruns tokens) :=
  fun _ => inferInstanceAs (Decidable (_ ∧ _))

instance (b : Bracket) (tokens : List Token) : DecidablePred (b.StaysOpen tokens) :=
  fun _ => inferInstanceAs (Decidable (_ ∧ _))

/-- The tokens at chosen places. -/
def atPlaces (chosen : Nat → Prop) [DecidablePred chosen] (tokens : List Token) : List Token :=
  (tokens.zipIdx.filter fun entry => chosen entry.2).map Prod.fst

/-- Brackets of a kind that are nested. -/
inductive Nested (b : Bracket) : List Token → Prop where
  | nil : Nested b []
  | wrap {first last : Token} {inside : List Token} (opens : first.kind = b.opening)
      (closes : last.kind = b.closing)
      (nested : Nested b inside) : Nested b (first :: inside ++ [last])
  | append {front back : List Token} (first : Nested b front) (second : Nested b back) :
      Nested b (front ++ back)

/-- The brackets of a kind among tokens. -/
def among (b : Bracket) (tokens : List Token) : List Token :=
  tokens.filter fun t => t.kind = b.opening || t.kind = b.closing

variable {b : Bracket} {t : Token} {rest stack tokens : List Token}

theorem closing_ne_opening (b : Bracket) : b.closing ≠ b.opening := by cases b <;> decide

section Excess

/-- What one token adds to the excess. -/
def weight (b : Bracket) (t : Token) : Int :=
  if t.kind = b.closing then 1 else if t.kind = b.opening then -1 else 0

theorem weight_closing (h : t.kind = b.closing) : b.weight t = 1 := if_pos h

theorem weight_opening (h : t.kind = b.opening) : b.weight t = -1 := by
  rw [weight, if_neg (h.trans_ne b.closing_ne_opening.symm), if_pos h]

theorem weight_other (opens : t.kind ≠ b.opening) (closes : t.kind ≠ b.closing) :
    b.weight t = 0 := by
  rw [weight, if_neg closes, if_neg opens]

@[simp] theorem excess_nil (b : Bracket) : b.excess [] = 0 := rfl

theorem excess_cons (b : Bracket) (t : Token) (rest : List Token) :
    b.excess (t :: rest) = b.weight t + b.excess rest := by
  have apart := b.closing_ne_opening
  simp only [excess, List.countP_cons, weight, decide_eq_true_eq]
  split
  · next closes =>
      rw [if_neg (closes.trans_ne apart)]
      omega
  · split <;> omega

end Excess

section Places

theorem atPlaces_cons (chosen : Nat → Prop) [DecidablePred chosen] (t : Token) (rest : List Token) :
    atPlaces chosen (t :: rest) =
      (if chosen 0 then [t] else []) ++ atPlaces (fun place => chosen (place + 1)) rest := by
  have shifted : ((rest.zipIdx 1).filter fun entry => decide (chosen entry.2)).map Prod.fst =
      atPlaces (fun place => chosen (place + 1)) rest := by
    rw [List.zipIdx_succ, List.filter_map, List.map_map]
    rfl
  rw [atPlaces, List.zipIdx_cons, List.filter_cons]
  split
  · next first =>
      rw [if_pos (of_decide_eq_true first), List.map_cons, shifted]
      rfl
  · next later =>
      rw [if_neg fun first => later (decide_eq_true first), shifted]
      rfl

theorem atPlaces_congr {chosen other : Nat → Prop} [DecidablePred chosen] [DecidablePred other]
    (same : ∀ place, chosen place ↔ other place) (tokens : List Token) :
    atPlaces chosen tokens = atPlaces other tokens := by
  rw [atPlaces, atPlaces, List.filter_congr fun entry _ => decide_eq_decide.mpr (same entry.2)]

end Places

/-!
Closing brackets are followed from the left, with openings that wait: a place overruns them where
the excess is greater than anywhere before and than there are openings.
-/

section Overrun

/-- The token at a place closes more brackets than were closed anywhere before, and more than
wait. -/
def OverrunsFrom (b : Bracket) (waiting : Nat) (tokens : List Token) (place : Nat) : Prop :=
  b.Overruns tokens place ∧ waiting < b.excess (tokens.take (place + 1))

instance (b : Bracket) (waiting : Nat) (tokens : List Token) :
    DecidablePred (b.OverrunsFrom waiting tokens) :=
  fun _ => inferInstanceAs (Decidable (_ ∧ _))

theorem overrunsFrom_none (place : Nat) : b.OverrunsFrom 0 tokens place ↔
      b.Overruns tokens place := by
  refine ⟨And.left, fun overruns => ⟨overruns, ?_⟩⟩
  simpa using overruns.2 0 (Nat.zero_le place)

theorem overrunsFrom_zero (waiting : Nat) :
    b.OverrunsFrom waiting (t :: rest) 0 ↔ t.kind = b.closing ∧ waiting = 0 := by
  constructor
  · rintro ⟨⟨⟨u, same, closes⟩, -⟩, fewer⟩
    cases same
    rw [List.take_succ_cons, List.take_zero, excess_cons, weight_closing closes,
      excess_nil] at fewer
    exact ⟨closes, by omega⟩
  · rintro ⟨closes, rfl⟩
    rw [overrunsFrom_none]
    refine ⟨⟨t, rfl, closes⟩, fun earlier le => ?_⟩
    rw [Nat.le_zero.mp le, List.take_succ_cons, List.take_zero, List.take_zero, excess_cons,
      weight_closing closes, excess_nil]
    decide

/-- A token only changes how many openings wait for what is behind it. -/
theorem overrunsFrom_succ {before after : Nat}
    (waits : ∀ closed : Int, 0 < closed → (before < b.weight t + closed ↔ after < closed))
    (place : Nat) :
    b.OverrunsFrom before (t :: rest) (place + 1) ↔ b.OverrunsFrom after rest place := by
  have whole (earlier : Nat) :
      b.excess ((t :: rest).take (earlier + 1)) = b.weight t + b.excess (rest.take earlier) :=
    excess_cons b t _
  constructor
  · rintro ⟨⟨closing, greatest⟩, more⟩
    have greatest' :
        ∀ earlier ≤ place, b.excess (rest.take earlier) < b.excess (rest.take (place + 1)) := by
      intro earlier le
      have less := greatest (earlier + 1) (Nat.succ_le_succ le)
      rw [whole, whole] at less
      omega
    rw [whole] at more
    exact ⟨⟨closing, greatest'⟩, (waits _ (greatest' 0 (Nat.zero_le place))).mp more⟩
  · rintro ⟨⟨closing, greatest⟩, more⟩
    have more' := (waits _ (greatest 0 (Nat.zero_le place))).mpr more
    refine ⟨⟨closing, fun earlier le => ?_⟩, by rwa [whole]⟩
    rw [whole]
    cases earlier with
    | zero =>
        rw [List.take_zero, excess_nil]
        omega
    | succ earlier =>
        have less := greatest earlier (Nat.le_of_succ_le_succ le)
        rw [whole]
        omega

/-- The closing brackets without a partner are those that overrun what waits. -/
theorem pair_closers_above (b : Bracket) (stack tokens : List Token) :
    (b.pair stack tokens).1 = atPlaces (b.OverrunsFrom stack.length tokens) tokens := by
  induction tokens generalizing stack with
  | nil => rfl
  | cons t rest ih =>
      rw [atPlaces_cons, if_congr (overrunsFrom_zero _) rfl rfl]
      by_cases opens : t.kind = b.opening
      · have other := opens.trans_ne b.closing_ne_opening.symm
        rw [pair_opening opens, ih, if_neg fun first => other first.1, List.nil_append]
        refine (atPlaces_congr (overrunsFrom_succ fun closed _ => ?_) rest).symm
        rw [weight_opening opens, List.length_cons]
        omega
      by_cases closes : t.kind = b.closing
      · cases stack with
        | nil =>
            rw [pair_closing_unmatched closes, ih, if_pos ⟨closes, rfl⟩]
            refine congrArg
              (t :: ·) (atPlaces_congr (overrunsFrom_succ fun closed some => ?_) rest).symm
            rw [weight_closing closes, List.length_nil]
            omega
        | cons first stack =>
            rw [pair_closing closes, ih, if_neg (by simp), List.nil_append]
            refine (atPlaces_congr (overrunsFrom_succ fun closed _ => ?_) rest).symm
            rw [weight_closing closes, List.length_cons]
            omega
      · rw [pair_other opens closes, ih, if_neg fun first => closes first.1, List.nil_append]
        refine (atPlaces_congr (overrunsFrom_succ fun closed _ => ?_) rest).symm
        rw [weight_other opens closes]
        omega

theorem pair_closers (b : Bracket) (tokens : List Token) :
    (b.pair [] tokens).1 = atPlaces (b.Overruns tokens) tokens := by
  rw [pair_closers_above, List.length_nil, atPlaces_congr overrunsFrom_none]

end Overrun

/-!
What waits below a list of tokens is closed by the closing brackets that are without a partner in
the list, innermost first.
-/

section Waiting

theorem pair_below (b : Bracket) (stack tokens : List Token) :
    (b.pair stack tokens).1 = (b.pair [] tokens).1.drop stack.length ∧
      (b.pair stack tokens).2 = (b.pair [] tokens).2 ++ stack.drop (b.pair [] tokens).1.length := by
  induction tokens generalizing stack with
  | nil => exact ⟨by simp [pair], by simp [pair]⟩
  | cons t rest ih =>
      by_cases opens : t.kind = b.opening
      · obtain ⟨closers, openers⟩ := ih (t :: stack)
        obtain ⟨closers', openers'⟩ := ih [t]
        rw [pair_opening opens, pair_opening opens, closers, openers, closers', openers']
        cases (b.pair [] rest).1 <;> simp
      by_cases closes : t.kind = b.closing
      · rw [pair_closing_unmatched closes]
        cases stack with
        | nil =>
            rw [pair_closing_unmatched closes]
            simp
        | cons first stack =>
            obtain ⟨closers, openers⟩ := ih stack
            rw [pair_closing closes, closers, openers]
            simp
      · rw [pair_other opens closes, pair_other opens closes]
        exact ih stack

theorem greatest_cons {greatest before : Int} (h : IsGreatest (b.excesses rest) greatest)
    (step : before = max 0 (b.weight t + greatest)) :
    IsGreatest (b.excesses (t :: rest)) before := by
  obtain ⟨⟨length, attained⟩, bound⟩ := h
  subst step
  constructor
  · rcases max_choice 0 (b.weight t + greatest) with none | some
    · exact ⟨0, none⟩
    · exact ⟨length + 1, by rw [some, attained, List.take_succ_cons, excess_cons]⟩
  · rintro count ⟨length, rfl⟩
    cases length with
    | zero => exact le_max_left _ _
    | succ length =>
        have below : b.excess (rest.take length) ≤ greatest := bound ⟨length, rfl⟩
        rw [List.take_succ_cons, excess_cons]
        exact le_max_of_le_right (Int.add_le_add_left below _)

/-- There are as many closing brackets without a partner as more are closed than opened where most
are, and all others close an opening one. -/
theorem pair_counts (b : Bracket) (tokens : List Token) :
    IsGreatest (b.excesses tokens) ((b.pair [] tokens).1.length : Int) ∧
      ((b.pair [] tokens).2.length : Int) = (b.pair [] tokens).1.length - b.excess tokens := by
  induction tokens with
  | nil =>
      refine ⟨⟨⟨0, rfl⟩, ?_⟩, rfl⟩
      rintro count ⟨length, rfl⟩
      rw [List.take_nil]
      exact Int.le_refl 0
  | cons t rest ih =>
      obtain ⟨greatest, waiting⟩ := ih
      rw [excess_cons]
      by_cases opens : t.kind = b.opening
      · obtain ⟨closers, openers⟩ := b.pair_below [t] rest
        rw [pair_opening opens, closers, openers, weight_opening opens, List.length_append,
          List.length_drop, List.length_drop]
        refine ⟨greatest_cons greatest ?_, ?_⟩
        · rw [weight_opening opens, List.length_singleton]
          omega
        · rw [List.length_singleton]
          omega
      by_cases closes : t.kind = b.closing
      · rw [pair_closing_unmatched closes, weight_closing closes]
        dsimp only [List.length_cons]
        refine ⟨greatest_cons greatest ?_, by omega⟩
        rw [weight_closing closes]
        omega
      · rw [pair_other opens closes, weight_other opens closes]
        refine ⟨greatest_cons greatest ?_, by omega⟩
        rw [weight_other opens closes]
        omega

theorem no_closers_iff (b : Bracket) (tokens : List Token) :
    (b.pair [] tokens).1 = [] ↔ ∀ length ≤ tokens.length, b.excess (tokens.take length) ≤ 0 := by
  obtain ⟨⟨⟨length, attained⟩, bound⟩, -⟩ := b.pair_counts tokens
  rw [← List.length_eq_zero_iff]
  constructor
  · intro none length _
    have below : b.excess (tokens.take length) ≤ _ := bound ⟨length, rfl⟩
    omega
  · intro low
    rcases Nat.le_total length tokens.length with inside | behind
    · have := low length inside
      omega
    · have := low tokens.length (Nat.le_refl _)
      rw [List.take_of_length_le behind] at attained
      rw [List.take_length] at this
      omega

end Waiting

section Open

theorem staysOpen_zero : b.StaysOpen (t :: rest) 0 ↔ t.kind = b.opening ∧
    (b.pair [] rest).1 = [] := by
  rw [no_closers_iff]
  constructor
  · rintro ⟨⟨u, same, opens⟩, low⟩
    cases same
    refine ⟨opens, fun length le => ?_⟩
    have less := low (length + 1) (Nat.succ_le_succ le) (Nat.succ_pos length)
    rw [List.drop_zero, List.take_succ_cons, excess_cons, weight_opening opens] at less
    omega
  · rintro ⟨opens, low⟩
    refine ⟨⟨t, rfl, opens⟩, fun later le some => ?_⟩
    cases later with
    | zero => cases some
    | succ later =>
        have less := low later (Nat.le_of_succ_le_succ le)
        rw [List.drop_zero, List.take_succ_cons, excess_cons, weight_opening opens]
        omega

/-- Whether a bracket stays open depends on what is behind it only. -/
theorem staysOpen_succ (place : Nat) : b.StaysOpen (t :: rest) (place + 1) ↔
      b.StaysOpen rest place := by
  refine and_congr_right fun _ => ⟨fun low later le some => ?_, fun low later le some => ?_⟩
  · exact low (later + 1) (Nat.succ_le_succ le) (Nat.succ_lt_succ some)
  · cases later with
    | zero => cases some
    | succ later => exact low later (Nat.le_of_succ_le_succ le) (Nat.lt_of_succ_lt_succ some)

/-- The opening brackets without a partner are those that stay open. -/
theorem pair_openers (b : Bracket) (tokens : List Token) :
    (b.pair [] tokens).2.reverse = atPlaces (b.StaysOpen tokens) tokens := by
  induction tokens with
  | nil => rfl
  | cons t rest ih =>
      rw [atPlaces_cons, if_congr staysOpen_zero rfl rfl, atPlaces_congr staysOpen_succ, ← ih]
      by_cases opens : t.kind = b.opening
      · rw [pair_opening opens, (b.pair_below [t] rest).2, List.reverse_append]
        cases (b.pair [] rest).1 <;> simp [opens]
      by_cases closes : t.kind = b.closing
      · rw [pair_closing_unmatched closes, if_neg fun first => opens first.1, List.nil_append]
      · rw [pair_other opens closes, if_neg fun first => opens first.1, List.nil_append]

end Open

/-!
Brackets that are all matched are nested.
-/

section Nested

/-- Brackets that close as many openings as wait, with nested ones before, between and behind. -/
inductive Closes (b : Bracket) : Nat → List Token → Prop where
  | done {inside : List Token} (nested : Nested b inside) : Closes b 0 inside
  | next {waiting : Nat} {inside rest : List Token} {t : Token} (nested : Nested b inside)
      (closes : t.kind = b.closing)
      (later : Closes b waiting rest) : Closes b (waiting + 1) (inside ++ t :: rest)

theorem Closes.prepend {front : List Token} {waiting : Nat} (first : Nested b front)
    (h : Closes b waiting rest) : Closes b waiting (front ++ rest) := by
  cases h with
  | done nested => exact .done (.append first nested)
  | next nested closes later =>
      rw [← List.append_assoc]
      exact .next (.append first nested) closes later

theorem Closes.opening {waiting : Nat} (opens : t.kind = b.opening)
    (h : Closes b (waiting + 1) rest) : Closes b waiting (t :: rest) := by
  cases h with
  | next nested closes later =>
      have split (u : Token) (inside rest : List Token) :
          t :: (inside ++ u :: rest) = (t :: inside ++ [u]) ++ rest := by
        simp
      rw [split]
      exact later.prepend (.wrap opens closes nested)

theorem among_cons (inside : t.kind = b.opening ∨ t.kind = b.closing) (rest : List Token) :
    b.among (t :: rest) = t :: b.among rest :=
  List.filter_cons_of_pos (by simpa using inside)

/-- Where matching leaves nothing over, the brackets close what waits. -/
theorem closes_of_pair (none : b.pair stack tokens = ([], [])) :
    Closes b stack.length (b.among tokens) := by
  induction tokens generalizing stack with
  | nil =>
      cases none
      exact .done .nil
  | cons t rest ih =>
      by_cases opens : t.kind = b.opening
      · rw [pair_opening opens] at none
        rw [among_cons (.inl opens)]
        exact (ih none).opening opens
      by_cases closes : t.kind = b.closing
      · cases stack with
        | nil =>
            rw [pair_closing_unmatched closes] at none
            cases none
        | cons first stack =>
            rw [pair_closing closes] at none
            rw [among_cons (.inr closes)]
            exact .next .nil closes (ih none)
      · rw [pair_other opens closes] at none
        rw [among, List.filter_cons_of_neg (by simp [opens, closes])]
        exact ih none

/-- Nested brackets are matched among themselves. -/
theorem Nested.pair (h : Nested b tokens) (stack rest : List Token) :
    b.pair stack (tokens ++ rest) = b.pair stack rest := by
  induction h generalizing stack rest with
  | nil => rfl
  | @wrap first last inside opens closes _ ih =>
      have shape :
        first :: inside ++ [last] ++ rest = first :: (inside ++ (last :: rest)) := by simp
      rw [shape, pair_opening opens, ih, pair_closing closes]
  | append _ _ ih ih' => rw [List.append_assoc, ih, ih']

theorem pair_among (b : Bracket) (stack tokens : List Token) :
    b.pair stack (b.among tokens) = b.pair stack tokens := by
  induction tokens generalizing stack with
  | nil => rfl
  | cons t rest ih =>
      by_cases opens : t.kind = b.opening
      · rw [among_cons (.inl opens), pair_opening opens, pair_opening opens, ih]
      by_cases closes : t.kind = b.closing
      · rw [among_cons (.inr closes)]
        cases stack with
        | nil => rw [pair_closing_unmatched closes, pair_closing_unmatched closes, ih]
        | cons first stack => rw [pair_closing closes, pair_closing closes, ih]
      · rw [among, List.filter_cons_of_neg (by simp [opens, closes]), pair_other opens closes]
        exact ih stack

theorem nested_iff (b : Bracket) (tokens : List Token) : Nested b (b.among tokens) ↔
      b.pair [] tokens = ([], []) := by
  constructor
  · intro nested
    have all := nested.pair [] []
    rwa [List.append_nil, pair_among] at all
  · intro none
    cases closes_of_pair none with
    | done nested => exact nested

end Nested

/-- Of each kind the closing brackets that overrun are found, and the opening ones that stay
open. -/
theorem findings_eq (b : Bracket) (tokens : List Token) :
    b.findings tokens = (atPlaces (b.Overruns tokens) tokens).map b.unmatched ++
      (atPlaces (b.StaysOpen tokens) tokens).map b.unclosed := by
  rw [← pair_closers, ← pair_openers]
  rfl

theorem findings_nil_iff (b : Bracket) (tokens : List Token) : b.findings tokens = [] ↔
      Nested b (b.among tokens) := by
  rw [nested_iff]
  refine ⟨pair_of_findings, fun none => ?_⟩
  rw [findings, none]
  rfl

end Bracket

theorem brackets_nil_iff (tokens : List Token) : brackets tokens = [] ↔ ∀ b : Bracket,
    b.findings tokens = [] := by
  have only : (brackets tokens).Perm
      ([Bracket.brace, .paren, .square].flatMap fun b => b.findings tokens) :=
    Sorting.sort_perm _ _
  rw [← List.isEmpty_iff, only.isEmpty_eq, List.isEmpty_iff, List.flatMap_eq_nil_iff]
  exact ⟨fun none b => none b (by cases b <;> decide), fun none b _ => none b⟩

/-- The findings about brackets are the closing ones that overrun and the opening ones that stay
open; there are none exactly where the brackets of each kind are nested. Of each kind, as many
overrun as more are closed than opened where most are, and as many stay open as are opened and not
closed by one that does not overrun. -/
theorem brackets_counted (tokens : List Token) :
    (brackets tokens).Perm ([Bracket.brace, .paren, .square].flatMap fun b =>
      (Bracket.atPlaces (b.Overruns tokens) tokens).map b.unmatched ++
        (Bracket.atPlaces (b.StaysOpen tokens) tokens).map b.unclosed) ∧
      (brackets tokens = [] ↔ ∀ b : Bracket, b.Nested (b.among tokens)) ∧ ∀ b : Bracket,
      IsGreatest (b.excesses tokens) ((Bracket.atPlaces (b.Overruns tokens) tokens).length : Int) ∧
        ((Bracket.atPlaces (b.StaysOpen tokens) tokens).length : Int) =
          tokens.countP (·.kind = b.opening) - tokens.countP (·.kind = b.closing) +
            (Bracket.atPlaces (b.Overruns tokens) tokens).length := by
  refine ⟨?_, ?_, fun b => ?_⟩
  · have all : ([Bracket.brace, .paren, .square].flatMap fun b => b.findings tokens) =
        [Bracket.brace, .paren, .square].flatMap fun b =>
        (Bracket.atPlaces (b.Overruns tokens) tokens).map b.unmatched ++
          (Bracket.atPlaces (b.StaysOpen tokens) tokens).map b.unclosed :=
      congrArg (List.flatMap · _) (funext fun b => b.findings_eq tokens)
    rw [← all]
    exact Sorting.sort_perm _ _
  · rw [brackets_nil_iff]
    exact forall_congr' fun b => b.findings_nil_iff tokens
  · obtain ⟨greatest, waiting⟩ := b.pair_counts tokens
    rw [← Bracket.pair_closers, ← Bracket.pair_openers, List.length_reverse]
    refine ⟨greatest, ?_⟩
    rw [waiting, Bracket.excess]
    omega

end ScriptLens.Lint
