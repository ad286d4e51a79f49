import ScriptLens.Parser.Basic
import ScriptLens.Proofs.Scan.Partition
import ScriptLens.Proofs.Spans.Tree

/-!
The pieces into which the parser lays out the tokens it consumes. The leaves of the pieces are the
tokens in their order, so what a piece covers is known without counting, and everything the parser
gives (the tree, the dropped statements, the tokens that recovery passed over) is read off the same
pieces.
-/

namespace ScriptLens

/-- Tokens in the order of the script, none of them empty. -/
structure InOrder (tokens : List Token) : Prop where
  apart : tokens.Pairwise fun a b => a.stop.offset ≤ b.start.offset
  nonempty : ∀ t ∈ tokens, t.start.offset < t.stop.offset

namespace InOrder

variable {tokens kept before behind : List Token} {a b : Token}

theorem sublist (h : InOrder tokens) (inside : kept.Sublist tokens) : InOrder kept :=
  ⟨h.apart.sublist inside, fun t member => h.nonempty t (inside.subset member)⟩

theorem left (h : InOrder (before ++ behind)) : InOrder before :=
  h.sublist (List.sublist_append_left _ _)

theorem right (h : InOrder (before ++ behind)) : InOrder behind :=
  h.sublist (List.sublist_append_right _ _)

theorem le (h : InOrder (before ++ behind)) (ha : a ∈ before) (hb : b ∈ behind) :
    a.stop.offset ≤ b.start.offset :=
  (List.pairwise_append.mp h.apart).2.2 a ha b hb

theorem head_le (h : InOrder tokens) (first : tokens.head? = some a) (hb : b ∈ tokens) :
    a.start.offset ≤ b.start.offset := by
  obtain ⟨rest, rfl⟩ := List.head?_eq_some_iff.mp first
  have wide := h.nonempty a List.mem_cons_self
  rcases List.mem_cons.mp hb with rfl | later
  · exact Nat.le_refl _
  · have apart := List.rel_of_pairwise_cons h.apart later
    omega

theorem le_getLast (h : InOrder tokens) (last : tokens.getLast? = some a) (hb : b ∈ tokens) :
    b.stop.offset ≤ a.stop.offset := by
  obtain ⟨front, rfl⟩ := List.getLast?_eq_some_iff.mp last
  have wide := h.nonempty a (List.mem_append_right front List.mem_cons_self)
  rcases List.mem_append.mp hb with earlier | same
  · have apart := h.le earlier List.mem_cons_self
    omega
  · rw [List.mem_singleton.mp same]

end InOrder

namespace Span

/-- The span runs from the first of some tokens to the last of them. -/
structure Over (span : Span) (tokens : List Token) : Prop where
  first : ∃ t, tokens.head? = some t ∧ span.start = t.start
  last : ∃ t, tokens.getLast? = some t ∧ span.stop = t.stop

/-- The span lies over some of the tokens that follow one another. -/
def Within (span : Span) (tokens : List Token) : Prop := ∃ part, part <:+: tokens ∧ span.Over part

variable {a b : Span} {tokens front middle back : List Token} {t : Token}

theorem over_token (t : Token) : t.span.Over [t] := ⟨⟨t, rfl, rfl⟩, ⟨t, rfl, rfl⟩⟩

theorem Over.within (h : a.Over tokens) : a.Within tokens := ⟨tokens, List.infix_rfl, h⟩

theorem Within.mono (h : a.Within tokens) (inside : tokens <:+: back) : a.Within back := by
  obtain ⟨part, infixed, covers⟩ := h
  exact ⟨part, infixed.trans inside, covers⟩

theorem Within.left (h : a.Within front) : a.Within (front ++ back) :=
  h.mono (List.prefix_append front back).isInfix

theorem Within.right (h : a.Within back) : a.Within (front ++ back) :=
  h.mono (List.suffix_append front back).isInfix

theorem Within.edges (h : a.Within tokens) :
    ∃ first ∈ tokens, ∃ last ∈ tokens, a.start = first.start ∧ a.stop = last.stop := by
  obtain ⟨part, inside, covers⟩ := h
  obtain ⟨first, head, start⟩ := covers.first
  obtain ⟨last, final, stop⟩ := covers.last
  exact ⟨first, inside.subset (List.mem_of_head? head), last,
    inside.subset (List.mem_of_getLast? final), start, stop⟩

theorem Within.ordered (order : InOrder tokens) (h : a.Within tokens) :
    a.start.offset ≤ a.stop.offset := by
  obtain ⟨part, inside, covers⟩ := h
  obtain ⟨first, head, start⟩ := covers.first
  obtain ⟨last, final, stop⟩ := covers.last
  have member := List.mem_of_getLast? final
  have before := (order.sublist inside.sublist).head_le head member
  have wide := order.nonempty last (inside.subset member)
  rw [start, stop]
  omega

theorem Over.contains (order : InOrder tokens) (ha : a.Over tokens) (hb : b.Within tokens) :
    a.Contains b := by
  obtain ⟨first, head, start⟩ := ha.first
  obtain ⟨last, final, stop⟩ := ha.last
  obtain ⟨x, hx, y, hy, start', stop'⟩ := hb.edges
  rw [Contains, start, stop, start', stop']
  exact ⟨order.head_le head hx, order.le_getLast final hy⟩

theorem Within.before (order : InOrder (front ++ back)) (ha : a.Within front) (hb : b.Within back) :
    a.Before b := by
  obtain ⟨_, _, y, hy, _, stop⟩ := ha.edges
  obtain ⟨x, hx, _, _, start, _⟩ := hb.edges
  rw [Before, stop, start]
  exact order.le hy hx

theorem Over.cover (order : InOrder (front ++ (middle ++ back))) (ha : a.Over front)
    (hb : b.Over back) : (a.cover b).Over (front ++ (middle ++ back)) := by
  obtain ⟨x, hx, start⟩ := ha.first
  obtain ⟨y, hy, stop⟩ := ha.last
  obtain ⟨x', hx', start'⟩ := hb.first
  obtain ⟨y', hy', stop'⟩ := hb.last
  have starts : a.start.offset ≤ b.start.offset := by
    have member : x' ∈ front ++ (middle ++ back) := by simp [List.mem_of_head? hx']
    rw [start, start']
    exact order.head_le (by rw [List.head?_append, hx]; rfl) member
  have stops : a.stop.offset < b.stop.offset := by
    have later : y' ∈ middle ++ back := List.mem_append_right _ (List.mem_of_getLast? hy')
    have apart := order.le (List.mem_of_getLast? hy) later
    have wide := order.nonempty y' (List.mem_append_right _ later)
    rw [stop, stop']
    omega
  constructor
  · refine ⟨x, by rw [List.head?_append, hx]; rfl, ?_⟩
    rw [Span.cover, if_neg (Nat.not_lt.mpr starts)]
    exact start
  · refine ⟨y', by rw [List.getLast?_append, List.getLast?_append, hy']; rfl, ?_⟩
    rw [Span.cover, if_pos stops]
    exact stop'

theorem Over.upTo (order : InOrder (front ++ back)) (ha : a.Over front)
    (last : back.getLast? = some t) : (a.cover t.span).Over (front ++ back) := by
  obtain ⟨others, rfl⟩ := List.getLast?_eq_some_iff.mp last
  exact ha.cover order (over_token t)

end Span

theorem Parser.State.over_spanFrom {s : State} {tokens : List Token} {first : Token}
    (order : InOrder tokens) (head : tokens.head? = some first)
    (last : tokens.getLast? = some s.last) : (s.spanFrom first).Over tokens := by
  have stops := order.le_getLast last (List.mem_of_head? head)
  rw [State.spanFrom, if_pos stops]
  exact ⟨⟨first, head, rfl⟩, ⟨s.last, last, rfl⟩⟩

/-- What a stretch of tokens was read as. -/
inductive Piece where
  | token (t : Token)
  /-- A directive and the tokens of its value. -/
  | line (first : Token) (value : List Token)
  /-- A node of the tree. -/
  | node (span : Span) (parts : List Piece)
  /-- A dropped statement: what was read until it failed, and what recovery passed over then. -/
  | dropped (parts : List Piece) (passed : List Token) (entry : Skipped)

namespace Piece

/-- How to collect something along pieces. -/
structure Reading (α : Type) where
  token : Token → List α
  line : Token → List Token → List α
  node : Span → List α → List α
  dropped : List α → List Token → Skipped → List α

variable {α : Type}

mutual

def read (r : Reading α) : Piece → List α
  | token t => r.token t
  | line first value => r.line first value
  | node span parts => r.node span (readAll r parts)
  | dropped parts passed entry => r.dropped (readAll r parts) passed entry

def readAll (r : Reading α) : List Piece → List α
  | [] => []
  | p :: ps => read r p ++ readAll r ps

end

theorem readAll_append (r : Reading α) (ps qs : List Piece) :
    readAll r (ps ++ qs) = readAll r ps ++ readAll r qs := by
  induction ps with
  | nil => rw [readAll, List.nil_append, List.nil_append]
  | cons p ps ih => rw [List.cons_append, readAll, readAll, ih, List.append_assoc]

/-- The tokens of some pieces. -/
def leaves (ps : List Piece) : List Token :=
  readAll ⟨fun t => [t], fun first value => first :: value, fun _ ts => ts,
    fun ts passed _ => ts ++ passed⟩ ps

/-- The nodes, of dropped statements none. -/
def trees (ps : List Piece) : List SpanTree :=
  readAll ⟨fun _ => [], fun _ _ => [], fun span ts => [.node span ts], fun _ _ _ => []⟩ ps

/-- The dropped statements in the order in which they ended. -/
def entries (ps : List Piece) : List Skipped :=
  readAll ⟨fun _ => [], fun _ _ => [], fun _ es => es, fun es _ entry => es ++ [entry]⟩ ps

/-- The tokens that a rule looked at: no value of a directive and nothing that recovery passed
over. -/
def live (ps : List Piece) : List Token :=
  readAll ⟨fun t => [t], fun first _ => [first], fun _ ts => ts, fun ts _ _ => ts⟩ ps

section Equations

variable (t first : Token) (value beyond : List Token) (span : Span) (entry : Skipped)
  (parts ps qs : List Piece)

@[simp] theorem leaves_nil : leaves [] = [] := rfl
@[simp] theorem leaves_append : leaves (ps ++ qs) = leaves ps ++ leaves qs := readAll_append _ ps qs
@[simp] theorem leaves_token : leaves (token t :: ps) = t :: leaves ps := rfl
@[simp] theorem leaves_line : leaves (line first value :: ps) = first :: (value ++ leaves ps) := rfl
@[simp] theorem leaves_node : leaves (node span parts :: ps) = leaves parts ++ leaves ps := rfl
@[simp] theorem leaves_dropped :
    leaves (dropped parts beyond entry :: ps) = leaves parts ++ beyond ++ leaves ps :=
  rfl

@[simp] theorem trees_nil : trees [] = [] := rfl
@[simp] theorem trees_append : trees (ps ++ qs) = trees ps ++ trees qs := readAll_append _ ps qs
@[simp] theorem trees_token : trees (token t :: ps) = trees ps := rfl
@[simp] theorem trees_line : trees (line first value :: ps) = trees ps := rfl
@[simp] theorem trees_node : trees (node span parts :: ps) = .node span (trees parts) :: trees ps :=
  rfl
@[simp] theorem trees_dropped : trees (dropped parts beyond entry :: ps) = trees ps := rfl

@[simp] theorem entries_nil : entries [] = [] := rfl
@[simp] theorem entries_append : entries (ps ++ qs) = entries ps ++ entries qs :=
  readAll_append _ ps qs
@[simp] theorem entries_token : entries (token t :: ps) = entries ps := rfl
@[simp] theorem entries_line : entries (line first value :: ps) = entries ps := rfl
@[simp] theorem entries_node : entries (node span parts :: ps) = entries parts ++ entries ps := rfl
@[simp] theorem entries_dropped :
    entries (dropped parts beyond entry :: ps) = entries parts ++ [entry] ++ entries ps :=
  rfl

@[simp] theorem live_nil : live [] = [] := rfl
@[simp] theorem live_append : live (ps ++ qs) = live ps ++ live qs := readAll_append _ ps qs
@[simp] theorem live_token : live (token t :: ps) = t :: live ps := rfl
@[simp] theorem live_line : live (line first value :: ps) = first :: live ps := rfl
@[simp] theorem live_node : live (node span parts :: ps) = live parts ++ live ps := rfl
@[simp] theorem live_dropped : live (dropped parts beyond entry :: ps) = live parts ++ live ps :=
  rfl

variable (ts : List Token)

@[simp] theorem leaves_tokens : leaves (ts.map token) = ts := by induction ts <;> simp_all
@[simp] theorem trees_tokens : trees (ts.map token) = [] := by induction ts <;> simp_all
@[simp] theorem entries_tokens : entries (ts.map token) = [] := by induction ts <;> simp_all
@[simp] theorem live_tokens : live (ts.map token) = ts := by induction ts <;> simp_all

end Equations

/-- Every span runs over the tokens of its piece, a directive takes its line to the end, and
recovery starts at the token at which a statement failed. What follows the pieces is given. -/
inductive Sound : List Token → List Piece → Prop
  | nil {rest} : Sound rest []
  | token {rest t ps} : t.kind ≠ .directive → Sound rest ps → Sound rest (token t :: ps)
  | line {rest first value next ps} : first.kind = .directive → (∀ t ∈ value, t.kind ≠ .newline) →
      (leaves ps ++ rest).head? = some next → next.kind = .newline ∨ next.kind = .eof →
      Sound rest ps → Sound rest (line first value :: ps)
  | node {rest span parts ps} : span.Over (leaves parts) → Sound (leaves ps ++ rest) parts →
      Sound rest ps → Sound rest (node span parts :: ps)
  | dropped {rest parts beyond entry ps} : entry.span.Over (leaves parts ++ beyond) →
      (beyond ++ (leaves ps ++ rest)).head? = some entry.error.found →
      Sound (beyond ++ (leaves ps ++ rest)) parts →
      Sound rest ps → Sound rest (dropped parts beyond entry :: ps)

theorem sound_append {rest : List Token} {ps qs : List Piece} :
    Sound rest (ps ++ qs) ↔ Sound (leaves qs ++ rest) ps ∧ Sound rest qs := by
  induction ps with
  | nil => exact ⟨fun h => ⟨.nil, h⟩, fun h => h.2⟩
  | cons p ps ih =>
      constructor
      · intro h
        rw [List.cons_append] at h
        cases h with
        | token kind tail => exact ⟨.token kind (ih.mp tail).1, (ih.mp tail).2⟩
        | line kind value head ends tail =>
            rw [leaves_append, List.append_assoc] at head
            exact ⟨.line kind value head ends (ih.mp tail).1, (ih.mp tail).2⟩
        | node covers inner tail =>
            rw [leaves_append, List.append_assoc] at inner
            exact ⟨.node covers inner (ih.mp tail).1, (ih.mp tail).2⟩
        | dropped covers head inner tail =>
            rw [leaves_append, List.append_assoc] at head inner
            exact ⟨.dropped covers head inner (ih.mp tail).1, (ih.mp tail).2⟩
      · rintro ⟨h, tail⟩
        rw [List.cons_append]
        cases h with
        | token kind front => exact .token kind (ih.mpr ⟨front, tail⟩)
        | line kind value head ends front =>
            refine .line kind value ?_ ends (ih.mpr ⟨front, tail⟩)
            rw [leaves_append, List.append_assoc]
            exact head
        | node covers inner front =>
            refine .node covers ?_ (ih.mpr ⟨front, tail⟩)
            rw [leaves_append, List.append_assoc]
            exact inner
        | dropped covers head inner front =>
            refine .dropped covers ?_ ?_ (ih.mpr ⟨front, tail⟩)
            · rw [leaves_append, List.append_assoc]
              exact head
            · rw [leaves_append, List.append_assoc]
              exact inner

theorem sound_tokens {rest ts : List Token} (kinds : ∀ t ∈ ts, t.kind ≠ .directive) :
    Sound rest (ts.map token) := by
  induction ts with
  | nil => exact .nil
  | cons t ts ih =>
      exact .token (kinds t List.mem_cons_self)
        (ih fun u member => kinds u (List.mem_cons_of_mem t member))

theorem Sound.covers {rest : List Token} {ps qs rs : List Piece} {span : Span}
    (h : Sound rest (ps ++ Piece.node span qs :: rs)) : span.Over (leaves qs) := by
  cases (sound_append.mp h).2 with
  | node covers inner tail => exact covers

theorem Sound.wrap {rest : List Token} {ps qs rs : List Piece} {span : Span}
    (h : Sound rest (ps ++ (qs ++ rs))) (covers : span.Over (leaves qs)) :
    Sound rest (ps ++ Piece.node span qs :: rs) := by
  obtain ⟨front, back⟩ := sound_append.mp h
  obtain ⟨middle, behind⟩ := sound_append.mp back
  refine sound_append.mpr ⟨?_, .node covers middle behind⟩
  rw [leaves_append] at front
  exact front

end Piece

end ScriptLens
