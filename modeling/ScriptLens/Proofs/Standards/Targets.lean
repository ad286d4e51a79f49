import ScriptLens.Proofs.LineChecks.Places

/-!
Where the rules about patterns point. Each pattern holds a part that its rule is about, and the
leftmost match on a line says where that part stands. Three rules point at it. Two look for the part
once more, from the start of the line, and so they point at it only if it does not also stand
further ahead, in front of the match or, for a handler, in the name of its event.
-/

namespace ScriptLens

namespace Text

/-- A part is first found behind a seam just if it does not occur in front of it, where no
occurrence lies across the seam. -/
theorem before?_seam {part front back first : List Char}
    (found : before? part (front ++ back) = some first)
    (nonempty : part ≠ []) (seam : ∀ d ∈ back.head?, d ∉ part.tail) :
    front.length ≤ first.length ↔ contains part front = false := by
  constructor
  · intro behind
    cases earlier : before? part front with
    | none => rw [contains, earlier]; rfl
    | some start =>
        obtain ⟨rest, rfl⟩ := before?_split earlier
        have whole : start ++ (part ++ rest) ++ back = start ++ (part ++ (rest ++ back)) := by simp
        obtain ⟨first', found', least⟩ := before?_least whole
        obtain rfl : first = first' := Option.some.inj (found.symm.trans found')
        have some := List.length_pos_iff.mpr nonempty
        simp only [List.length_append] at behind
        omega
  · intro free
    by_contra ahead
    obtain ⟨rest, whole⟩ := before?_split found
    -- the occurrence starts in front of the seam: it ends there too, or the seam's character is
    -- inside it
    rcases List.append_eq_append_iff.mp whole with ⟨gap, rfl, _⟩ | ⟨gap, rfl, across⟩
    · simp at ahead
    have here : ∀ more, gap ≠ part ++ more := by
      rintro more rfl
      have occurs : contains part (first ++ (part ++ more)) = true :=
        contains_of_infix ⟨first, more, List.append_assoc _ _ _⟩
      rw [free] at occurs
      cases occurs
    rcases List.append_eq_append_iff.mp across with ⟨more, rfl, rest'⟩ | ⟨more, rfl, rfl⟩
    · exact here more rfl
    · cases more with
      | nil => exact here [] (by simp)
      | cons d more =>
          cases gap with
          | nil => simp at ahead
          | cons c gap => exact seam d rfl (List.mem_append_right gap List.mem_cons_self)

namespace Pattern

/-- What is spelt is made up of the pieces, one for each item. -/
theorem Spells.whole {p : Pattern} {before : Option Char} {text : List Char} {m : Match}
    (h : Spells p before text m) :
    text = m.pieces.flatten ++ m.rest ∧ m.pieces.length = p.length := by
  induction h with
  | nil => exact ⟨rfl, rfl⟩
  | @item items before piece rest m item fits spells ih =>
      refine ⟨?_, congrArg Nat.succ ih.2⟩
      rw [List.flatten_cons, List.append_assoc, ← ih.1]

/-- Two patterns in a row spell one behind the other. -/
theorem Spells.append {p q : Pattern} {before : Option Char} {text : List Char} {m : Match}
    (h : Spells (p ++ q) before text m) : ∃ last n k,
    Spells p before text n ∧ Spells q last n.rest k ∧ m = ⟨n.pieces ++ k.pieces, k.rest⟩ := by
  induction p generalizing before text m with
  | nil => exact ⟨before, ⟨[], text⟩, m, .nil, h, rfl⟩
  | cons item items ih =>
      rcases h with _ | @⟨_, _, piece, rest, m, _, fits, spells⟩
      obtain ⟨last, n, k, first, second, rfl⟩ := ih spells
      exact ⟨last, ⟨piece :: n.pieces, n.rest⟩, k, .item item fits first, second, rfl⟩

/-- A text in a pattern is spelt as it is. -/
theorem Spells.exactly {part : List Char} {before : Option Char} {text : List Char} {m : Match}
    (h : Spells (part.map fun c => .one (· = c)) before text m) : m.pieces.flatten = part := by
  induction part generalizing before text m with
  | nil =>
      cases h
      rfl
  | cons c part ih =>
      rcases h with _ | @⟨_, _, piece, rest, m, _, fits, spells⟩
      obtain ⟨d, rfl, same⟩ := fits
      rw [List.flatten_cons, ih spells, of_decide_eq_true same]
      rfl

/-- No match starts in front of the one that a search finds. -/
theorem searchFrom_least {p : Pattern} {before : Option Char} {text skipped other rest : List Char}
    {m n : Match}
    (found : searchFrom p before text = some (skipped, m)) (split : text = other ++ rest)
    (spells : Spells p (other.getLast?.or before) rest n) : skipped.length ≤ other.length := by
  induction other generalizing before text skipped with
  | nil =>
      obtain ⟨k, here⟩ := Option.isSome_iff_exists.mp (matchHere_complete p _ _ _ spells)
      rw [List.getLast?_nil, Option.none_or] at here
      rw [split, List.nil_append] at found
      cases rest with
      | nil =>
          rw [searchFrom, here] at found
          cases found
          exact Nat.le_refl 0
      | cons c rest =>
          rw [searchFrom, here] at found
          cases found
          exact Nat.le_refl 0
  | cons c other ih =>
      rw [last_or_cons] at spells
      rw [split, List.cons_append, searchFrom] at found
      split at found
      · cases found
        exact Nat.zero_le _
      · obtain ⟨⟨skipped, k⟩, later, same⟩ := Option.map_eq_some_iff.mp found
        cases same
        exact Nat.succ_le_succ (ih later rfl spells)

end Pattern

end Text

namespace Standards

open Text (Pattern)

/-- What a rule about a pattern is about. -/
structure Target where
  pattern : Pattern
  /-- Whether the pattern is for the start of a line only. -/
  anchored : Bool
  /-- The items of the pattern in front of the part. -/
  lead : Nat
  /-- The part of the match that the rule is about. -/
  part : String
  /-- Whether the rule points at the first such part of a line, wherever the match is. -/
  first : Bool

/-- The brace of an object literal. -/
def braceTarget : Target := ⟨objectLiteral, false, 0, "\x7b", false⟩

def newTarget : Target := ⟨newInstance, false, 1, "new", false⟩

def equalsTarget : Target := ⟨equalsValue, true, 3, "=", false⟩

/-- The object of a handler. -/
def thisTarget : Target :=
  ⟨handlerHead ++ handlerTail, false, handlerHead.length - 5, "this.", true⟩

def arrowTarget : Target := ⟨blockArrow, false, 4, "=>", true⟩

/-- The targets of the rules about patterns. -/
def target? : String → Option Target
  | "use_map_constructor" => some braceTarget
  | "no_new_keyword" => some newTarget
  | "use_assignment_operator" => some equalsTarget
  | "bind_methods_for_callbacks" => some thisTarget
  | "arrow_functions_simple_only" => some arrowTarget
  | _ => none

namespace Target

variable {t : Target} {line before : List Char} {m : Pattern.Match} {column : Nat}

/-- The leftmost match in a line, behind the characters before it. -/
def find (t : Target) (line : List Char) : Option (List Char × Pattern.Match) :=
  if t.anchored then (t.pattern.match? line).map fun m => ([], m) else t.pattern.search? line

/-- The column of the part of a match. -/
def place (t : Target) (before : List Char) (m : Pattern.Match) : Nat :=
  before.length + (m.pieces.take t.lead).flatten.length

/-- The column behind a match. -/
def stop (line : List Char) (m : Pattern.Match) : Nat := line.length - m.rest.length

/-- A match in a line: no other one starts in front of it, and the part stands in it. -/
structure Site (t : Target) (line before : List Char) (m : Pattern.Match) : Prop where
  leftmost : ∀ skipped rest n, line = skipped ++ rest → t.pattern.Spells skipped.getLast? rest n →
    t.anchored = false → before.length ≤ skipped.length
  spelt : t.part.toList <+: line.drop (t.place before m)
  start : before.length ≤ t.place before m
  stop : t.place before m + t.part.toList.length ≤ stop line m

/-- A column points into a match, and at its part, unless the rule takes such a part further
ahead. -/
structure Points (t : Target) (line before : List Char) (m : Pattern.Match)
    (column : Nat) : Prop where
  inside : before.length ≤ column ∧ column < stop line m ↔
    (t.first = true → Text.occursIn t.part (line.take before.length) = false)
  exact : column = t.place before m ↔
    (t.first = true → Text.occursIn t.part (line.take (t.place before m)) = false)
  upTo : column ≤ t.place before m

/-- A match in a line, cut in front of its part: `n` is what the items in front of the part took. -/
structure Cut (t : Target) (lead : Pattern) (line before : List Char)
    (m n : Pattern.Match) : Prop where
  site : t.Site line before m
  split : line = before ++ (n.pieces.flatten ++ n.rest)
  spells : lead.Spells before.getLast? (n.pieces.flatten ++ n.rest) n
  part : t.part.toList <+: n.rest
  place : t.place before m = (before ++ n.pieces.flatten).length

/-- A match in a line with a column that points into it. -/
def Meets (t : Target) (line : List Char) (column : Nat) : Prop :=
  ∃ before m, t.find line = some (before, m) ∧ t.Site line before m ∧ t.Points line before m column

theorem find_free (free : t.anchored = false) :
    t.find line = t.pattern.search? line := by rw [find, free]; rfl

theorem find_sound (found : t.find line = some (before, m)) :
    ∃ rest, line = before ++ rest ∧ t.pattern.Spells before.getLast? rest m ∧ ∀ skipped rest' n,
      line = skipped ++ rest' → t.pattern.Spells skipped.getLast? rest' n → t.anchored = false →
        before.length ≤ skipped.length := by
  unfold find at found
  split at found
  · next anchored =>
      obtain ⟨n, here, same⟩ := Option.map_eq_some_iff.mp found
      cases same
      refine ⟨line, rfl, Pattern.matchHere_sound _ _ _ _ here, fun _ _ _ _ _ free => ?_⟩
      rw [anchored] at free
      cases free
  · obtain ⟨rest, split, spells⟩ := Pattern.searchFrom_sound found
    rw [Option.or_none] at spells
    refine ⟨rest, split, spells, fun skipped rest' n split' spells' _ => ?_⟩
    exact Pattern.searchFrom_least found split' (by rwa [Option.or_none])

theorem find_cut (lead : Pattern) {tail : Pattern} (found : t.find line = some (before, m))
    (shape : t.pattern = lead ++ (Pattern.exactly t.part ++ tail)) (count : t.lead = lead.length) :
    ∃ n, t.Cut lead line before m n := by
  obtain ⟨rest, rfl, spells, leftmost⟩ := find_sound found
  rw [shape] at spells
  obtain ⟨_, n, k, first, second, rfl⟩ := spells.append
  obtain ⟨_, l, r, third, fourth, rfl⟩ := second.append
  obtain ⟨rfl, pieces⟩ := first.whole
  have part : l.pieces.flatten = t.part.toList := third.exactly
  have behind := third.whole.1
  have past := fourth.whole.1
  rw [part] at behind
  have place : t.place before ⟨n.pieces ++ (l.pieces ++ r.pieces), r.rest⟩ =
      (before ++ n.pieces.flatten).length := by
    rw [place, count, ← pieces, List.take_left, List.length_append]
  refine ⟨n, ⟨leftmost, ?_, ?_, ?_⟩, rfl, first, ⟨l.rest, behind.symm⟩, place⟩
  · rw [place, ← List.append_assoc, List.drop_left, behind]
    exact List.prefix_append _ _
  · rw [place, List.length_append]
    exact Nat.le_add_right _ _
  · rw [place, behind, past, stop]
    simp only [List.length_append]
    omega

namespace Cut

variable {lead : Pattern} {n : Pattern.Match}

/-- The rule takes no other part. -/
theorem points (cut : t.Cut lead line before m n) (only : t.first = false)
    (nonempty : t.part.toList ≠ [])
    (here : column = t.place before m) : t.Points line before m column := by
  have free : ∀ {P : Prop}, t.first = true → P := fun first =>
    absurd (only.symm.trans first) (by decide)
  have some := List.length_pos_iff.mpr nonempty
  have start := cut.site.start
  have stop := cut.site.stop
  exact ⟨iff_of_true ⟨by omega, by omega⟩ free, iff_of_true here free, Nat.le_of_eq here⟩

/-- The rule takes the first part on the line. -/
theorem points_first (cut : t.Cut lead line before m n) (first : t.first = true) {d e : Char}
    {part rest : List Char} (head : t.part.toList = d :: part)
    (inner : d ∉ part) (start : n.pieces.flatten ++ n.rest = e :: rest)
    (outer : e ∉ part) {front : List Char} (found : Text.before? t.part.toList line = some front) :
    t.Points line before m front.length := by
  have nonempty : t.part.toList ≠ [] := by simp [head]
  have split := cut.split
  obtain ⟨behind, rest'⟩ := cut.part
  have split' : line = (before ++ n.pieces.flatten) ++ (t.part.toList ++ behind) := by
    rw [split, List.append_assoc, rest']
  obtain ⟨front', found', least⟩ := Text.before?_least split'
  obtain rfl : front = front' := Option.some.inj (found.symm.trans found')
  have upTo : front.length ≤ t.place before m := cut.place ▸ least
  have some := List.length_pos_iff.mpr nonempty
  have stop := cut.site.stop
  refine ⟨?_, ?_, upTo⟩
  · have seam := Text.before?_seam (split ▸ found) nonempty (by simpa [start, head] using outer)
    rw [Text.occursIn, split, List.take_left, ← seam, ← split]
    exact ⟨fun within _ => within.1, fun ahead => ⟨ahead first, by omega⟩⟩
  · have seam := Text.before?_seam (split' ▸ found) nonempty (by simpa [head] using inner)
    rw [Text.occursIn, cut.place, split', List.take_left, ← seam, ← cut.place]
    exact ⟨fun same _ => Nat.le_of_eq same.symm, fun ahead => Nat.le_antisymm upTo (ahead first)⟩

end Cut

end Target

variable {line : List Char} {hit : Hit}

theorem columnOf?_eq {part : String} {column : Nat} (h : columnOf? part line = some column) :
    ∃ front, Text.before? part.toList line = some front ∧ front.length = column :=
  Option.map_eq_some_iff.mp h

/-- The brace of an object literal is the start of its match. -/
theorem mapConstructor_meets (h : mapConstructor line = some hit) :
    braceTarget.Meets line hit.column := by
  obtain ⟨_, h⟩ := Option.ite_none_left_eq_some.mp h
  obtain ⟨⟨before, m⟩, searched, rfl⟩ := Option.map_eq_some_iff.mp h
  have found : braceTarget.find line = some (before, m) := (Target.find_free rfl).trans searched
  obtain ⟨n, cut⟩ := Target.find_cut [] found rfl rfl
  exact ⟨before, m, found, cut.site, cut.points rfl (by decide) rfl⟩

/-- The word `new` is the start of its match: the edge of a word takes no character. -/
theorem newKeyword_meets (h : newKeyword line = some hit) : newTarget.Meets line hit.column := by
  obtain ⟨⟨before, m⟩, searched, rfl⟩ := Option.map_eq_some_iff.mp h
  have found : newTarget.find line = some (before, m) := (Target.find_free rfl).trans searched
  obtain ⟨n, cut⟩ := Target.find_cut [.boundary] found rfl rfl
  have empty : n.pieces.flatten = [] := by
    have spells := cut.spells
    generalize n.pieces.flatten ++ n.rest = text at spells
    rcases spells with _ | @⟨_, _, piece, _, _, _, fits, _ | _⟩
    rw [fits.1]
    rfl
  refine ⟨before, m, found, cut.site, cut.points rfl (by decide) ?_⟩
  rw [cut.place, empty, List.append_nil]

/-- The first equals sign of an assignment stands behind the word at the start of its line. -/
theorem assignmentOperator_meets (h : assignmentOperator line = some hit) :
    equalsTarget.Meets line hit.column := by
  obtain ⟨assigns, h⟩ := Option.ite_none_right_eq_some.mp h
  obtain ⟨column, sign, rfl⟩ := Option.map_eq_some_iff.mp h
  obtain ⟨front, first, rfl⟩ := columnOf?_eq sign
  obtain ⟨m, lead, rest, here, pieces, least, -⟩ := LineChecks.legacyAssignment_lead assigns
  have found : equalsTarget.find line = some ([], m) := congrArg (Option.map fun m => ([], m)) here
  obtain ⟨n, cut⟩ := Target.find_cut [blanks, .some Text.isWord, blanks] found rfl rfl
  obtain rfl : front = lead := Option.some.inj (first.symm.trans least)
  refine ⟨[], m, found, cut.site, cut.points rfl (by decide) ?_⟩
  rw [Target.place, ← pieces]
  exact (Nat.zero_add _).symm

/-- A pattern that starts with a character is spelt from that character on. -/
theorem spells_head {c : Char} {items : Pattern} {last : Option Char} {text : List Char}
    {n : Pattern.Match}
    (h : Pattern.Spells (.one (· = c) :: items) last text n) : ∃ rest, text = c :: rest := by
  rcases h with _ | @⟨_, _, piece, rest, _, _, fits, _⟩
  obtain ⟨d, rfl, same⟩ := fits
  exact ⟨rest, by rw [of_decide_eq_true same]; rfl⟩

/-- The first `this.` of a line is the one of the handler, unless one stands in front of that. -/
theorem methodBinding_meets (h : methodBinding line = some hit) :
    thisTarget.Meets line hit.column := by
  obtain ⟨_, h⟩ := Option.ite_none_left_eq_some.mp h
  obtain ⟨name, unbound, h⟩ := Option.bind_eq_some_iff.mp h
  obtain ⟨column, this, same⟩ := Option.bind_eq_some_iff.mp h
  cases same
  obtain ⟨front, first, rfl⟩ := columnOf?_eq this
  obtain ⟨⟨before, m⟩, searched, _⟩ := Option.bind_eq_some_iff.mp unbound
  have found : thisTarget.find line = some (before, m) := (Target.find_free rfl).trans searched
  obtain ⟨n, cut⟩ := Target.find_cut (handlerHead.take (handlerHead.length - 5)) found rfl rfl
  obtain ⟨rest, start⟩ := spells_head cut.spells
  exact ⟨before, m, found, cut.site,
    cut.points_first rfl (d := 't') rfl (by decide) start (by decide) first⟩

/-- The first arrow of a line is the one in front of the block, unless one stands in front of
that. -/
theorem arrowComplexity_meets (h : arrowComplexity line = some hit) :
    arrowTarget.Meets line hit.column := by
  obtain ⟨occurs, h⟩ := Option.ite_none_right_eq_some.mp h
  obtain ⟨column, arrow, rfl⟩ := Option.map_eq_some_iff.mp h
  obtain ⟨front, first, rfl⟩ := columnOf?_eq arrow
  obtain ⟨⟨before, m⟩, searched⟩ := Option.isSome_iff_exists.mp occurs
  have found : arrowTarget.find line = some (before, m) := (Target.find_free rfl).trans searched
  obtain ⟨n, cut⟩ := Target.find_cut (Pattern.exactly "(*)" ++ [blanks]) found rfl rfl
  obtain ⟨rest, start⟩ := spells_head cut.spells
  exact ⟨before, m, found, cut.site,
    cut.points_first rfl (d := '=') rfl (by decide) start (by decide) first⟩

/-- Where a rule about a pattern hits a line, there is a match. -/
theorem hit_meets {rule : Rule} (member : rule ∈ rules) (h : rule.check line = some hit)
    {t : Target} (aims : target? rule.name = some t) : t.Meets line hit.column := by
  simp only [rules, List.mem_cons, List.not_mem_nil, or_false] at member
  rcases member with rfl | rfl | rfl | rfl | rfl | rfl | rfl
  · cases aims
    exact mapConstructor_meets h
  · cases aims
    exact newKeyword_meets h
  · cases aims
    exact assignmentOperator_meets h
  · cases aims
  · cases aims
  · cases aims
    exact methodBinding_meets h
  · cases aims
    exact arrowComplexity_meets h

end Standards

open Standards

/-- A violation of a rule about a pattern is about the leftmost match on its line. Its column, cut
to a word where the line is long, is inside the match and at the part that the rule is about, always
where the rule points at the match, and else just where no such part stands further ahead: in front
of the match, or in front of the part. -/
theorem violations_placed {source : String} {v : Violation} (member : v ∈ validate source)
    {t : Target} (aims : target? v.rule = some t) :
    ∃ line before m column, 1 ≤ v.line ∧
      (Text.lines source.toList)[v.line - 1]? = some line ∧ t.find line = some (before, m) ∧
      v.column = column.toUInt32 ∧ (line.length < 2 ^ 32 → v.column.toNat = column) ∧
      t.Site line before m ∧ t.Points line before m column := by
  obtain ⟨i, line, rule, hit, here, among, hits, rfl⟩ := LineChecks.mem_validate member
  obtain ⟨before, m, found, site, points⟩ := hit_meets among hits aims
  have inside := LineChecks.hit_inside among hits
  exact ⟨line, before, m, hit.column, Nat.le_add_left 1 i, here, found, rfl,
    fun short => toNat_toUInt32 (show hit.column < 2 ^ 32 by omega), site, points⟩

/-- The handler of `this.b`, reported at the head of the line. -/
def handlerAhead : Violation :=
  ⟨"bind_methods_for_callbacks",
    "Use .Bind(this) when passing methods as callbacks in AutoHotkey v2", 1, 0, .error,
    some "Add .Bind(this) after Go"⟩

theorem violations_placed_handler :
    handlerAhead ∈ validate "this.b.OnEvent(\"Click\", this.Go)" ∧
    target? handlerAhead.rule = some thisTarget ∧
    ∃ line before m column, 1 ≤ handlerAhead.line ∧
      (Text.lines "this.b.OnEvent(\"Click\", this.Go)".toList)[handlerAhead.line - 1]? = some line ∧
      thisTarget.find line = some (before, m) ∧ handlerAhead.column = column.toUInt32 ∧
      (line.length < 2 ^ 32 → handlerAhead.column.toNat = column) ∧
      thisTarget.Site line before m ∧ thisTarget.Points line before m column := by
  have member : handlerAhead ∈ validate "this.b.OnEvent(\"Click\", this.Go)" := by decide +kernel
  exact ⟨member, rfl, violations_placed member rfl⟩

/-- A handler whose event is that of a field of the same object is reported in front of the
match. -/
theorem handler_misplaced : ¬∀ source v t line before m, v ∈ validate source →
    target? v.rule = some t → (Text.lines source.toList)[v.line - 1]? = some line →
    t.find line = some (before, m) →
      before.length ≤ v.column.toNat ∧ v.column.toNat < Target.stop line m ∧
        (t.first = true → v.column.toNat = t.place before m) := by
  intro placed
  let line := "this.b.OnEvent(\"Click\", this.Go)"
  let found := (thisTarget.find line.toList).get (by decide +kernel)
  have inside := placed line handlerAhead thisTarget line.toList found.1 found.2
    (by decide +kernel) rfl (by decide +kernel) (Option.some_get _).symm
  exact absurd inside.1 (by decide +kernel)

end ScriptLens
