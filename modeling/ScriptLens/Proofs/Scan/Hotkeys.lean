import ScriptLens.Proofs.Scan.Cutting
import ScriptLens.Proofs.Scan.Pairs
import ScriptLens.Proofs.Text.Places
import Mathlib.Data.List.DropRight
import Mathlib.Order.Bounds.Defs

/-!
Hotkeys. A colon pair claims what stands before it on its line, other hotkeys too, up to a string
that reaches into the line. So at the end a line has one hotkey if it has a colon pair at all: it
starts where the line, or what is left of it behind such a string, starts, and it ends with the last
pair of the line.
-/

namespace ScriptLens

namespace Lexeme

/-- A hotkey is no lexeme. -/
theorem read_ne_hotkey (c : Char) (rest : List Char) : (read c rest).shape ≠ .token .hotkey := by
  intro shape
  rcases read_token shape with ⟨_, other⟩ | ⟨_, other⟩ | spelled | symbol
  · cases other
  · cases other
  · cases spelled
  · unfold symbolKind at symbol
    split at symbol <;> cases symbol

/-- Behind its last line feed a lexeme holds something only if it is a string. -/
theorem read_behind_feed {c : Char} {rest a b : List Char} {k : Kind}
    (shape : (read c rest).shape = .token k)
    (text : (read c rest).text = a ++ '\n' :: b) : b = [] ∨ k = .string := by
  by_cases string : k = .string
  · exact .inr string
  by_cases comment : k = .comment
  · subst comment
    have semicolon : c = ';' := by
      by_contra other
      by_cases feed : c = '\n'
      · subst feed
        cases shape
      · cases read_isInline shape feed other
    subst semicolon
    have free := (read_comment rest).2.1
    rw [text] at free
    exact absurd (List.mem_append_right a List.mem_cons_self) free
  · obtain ⟨tail, whole, inside⟩ := tailed_of_shape shape (by simp [string, comment])
    rw [text] at whole
    cases a with
    | nil =>
        obtain ⟨rfl, rfl⟩ := List.cons.inj whole
        rw [read_newline] at text
        exact .inl (List.cons.inj text).2.symm
    | cons d a =>
        obtain ⟨_, rfl⟩ := List.cons.inj whole
        exact absurd (inside '\n' (List.mem_append_right a List.mem_cons_self)) (by decide)

end Lexeme

namespace Token

/-- The hotkey on the line behind `lines`, on which a string left `lead`, blanks `gap` and the
trigger stand. -/
structure ClaimsLine (h : Token) (lines lead gap trigger : List Char) (earlier : List Token)
    (pairs : List Position) : Prop where
  whole : WholeLines lines
  free : '\n' ∉ lead ++ (gap ++ trigger)
  entered : lead = [] ∨ ∃ t ∈ earlier,
    t.kind = .string ∧ t.stop = Position.start.after (lines ++ lead)
  alone : ∀ t ∈ earlier, t.start.line < h.start.line ∧
    t.stop.offset ≤ Text.byteLength (lines ++ lead)
  blank : ∀ c ∈ gap, isBlank c = true
  first : trigger.head?.any isBlank = false
  start : h.start = Position.start.after (lines ++ (lead ++ gap))
  stop : h.stop = (Position.start.after (lines ++ (lead ++ (gap ++ trigger)))).after [':', ':']
  text : h.text = String.ofList (trigger.rdropWhile isBlank ++ [':', ':'])
  pair : Position.start.after (lines ++ (lead ++ (gap ++ trigger))) ∈ pairs
  last : ∀ q ∈ pairs, q.line = h.start.line →
    q.offset ≤ Text.byteLength (lines ++ (lead ++ (gap ++ trigger)))

/-- The hotkey on a line of a text, with the tokens before it and the colon pairs of the text. -/
def Claims (text : List Char) (pairs : List Position) (earlier : List Token) (h : Token) : Prop :=
  ∃ lines lead gap trigger behind,
    text = lines ++ (lead ++ (gap ++ (trigger ++ ':' :: ':' :: behind))) ∧
    h.ClaimsLine lines lead gap trigger earlier pairs

/-- A hotkey stays as it is when pairs on later lines come to it. -/
theorem Claims.extend {text : List Char} {pairs below : List Position} {earlier : List Token}
    {h : Token} (claims : Claims text pairs earlier h) (later : ∀ q ∈ below, h.start.line < q.line)
    (more : List Char) : Claims (text ++ more) (pairs ++ below) earlier h := by
  obtain ⟨lines, lead, gap, trigger, behind, rfl, line⟩ := claims
  refine ⟨lines, lead, gap, trigger, behind ++ more, by simp, ?_⟩
  refine { line with pair := List.mem_append_left _ line.pair, last := fun q member same => ?_ }
  rcases List.mem_append.mp member with old | new
  · exact line.last q old same
  · exact absurd same (Nat.ne_of_gt (later q new))

/-- The pair stands in the hotkey. -/
def Encloses (h : Token) (p : Position) : Prop :=
  h.start.offset ≤ p.offset ∧ p.offset + 2 ≤ h.stop.offset

/-- Every hotkey among the tokens claims its line, and every pair stands in one. -/
structure Claim (text : List Char) (pairs : List Position) (tokens : List Token) : Prop where
  claims : ∀ earlier h later, tokens = earlier ++ h :: later → h.kind = .hotkey →
    Claims text pairs earlier h
  covered : ∀ p ∈ pairs, ∃ h ∈ tokens, h.kind = .hotkey ∧ h.Encloses p

end Token

namespace Stretch

/-- A stretch with its colon pairs: none, or the hotkey of what stands before the last one comes
first. -/
def Claimed (s : Stretch) (pairs : List Position) : Prop :=
  (pairs = [] ∧ ∀ t ∈ s.tokens, t.kind ≠ .hotkey) ∨
  ∃ front back later, s.text.reverse = front ++ ':' :: ':' :: back ∧ s.tokens = later ++
    [Stretch.hotkey ⟨s.start, front.reverse, []⟩ ((s.start.after front).after [':', ':'])] ∧
    (∀ t ∈ later, t.kind ≠ .hotkey) ∧ s.start.after front ∈ pairs ∧
    ∀ q ∈ pairs, q.line = s.start.line ∧
      s.start.offset + Text.byteLength (front.takeWhile isBlank) ≤ q.offset ∧
      q.offset ≤ (s.start.after front).offset

theorem fresh_claimed (p : Position) : (fresh p).Claimed [] := .inl ⟨rfl, by simp [fresh]⟩

variable {s : Stretch} {pairs : List Position}

/-- What comes behind the last pair is left alone. -/
theorem Claimed.behind (h : s.Claimed pairs) (body : List Char) {tokens : List Token}
    (other : ∀ t ∈ tokens, t.kind ≠ .hotkey) :
    Claimed ⟨s.start, body.reverse ++ s.text, tokens ++ s.tokens⟩ pairs := by
  rcases h with ⟨none, plain⟩ | ⟨front, back, later, text, tokens', plain, last, inside⟩
  · refine .inl ⟨none, fun t member => ?_⟩
    rcases List.mem_append.mp member with new | old
    · exact other t new
    · exact plain t old
  · refine .inr ⟨front, back ++ body, tokens ++ later, ?_, ?_, ?_, last, inside⟩
    · simp [text]
    · simp [tokens']
    · intro t member
      rcases List.mem_append.mp member with new | old
      · exact other t new
      · exact plain t old

/-- A further pair claims the hotkey of the pairs before it. -/
theorem Claimed.pair (h : s.Claimed pairs) (free : '\n' ∉ s.text) : Claimed
    ⟨s.start, [':', ':'] ++ s.text, [s.hotkey ((s.start.after s.text.reverse).after [':', ':'])]⟩
      (pairs ++ [s.start.after s.text.reverse]) := by
  have free' : '\n' ∉ s.text.reverse := by simpa using free
  refine .inr
    ⟨s.text.reverse, [], [], by simp, by simp [hotkey], by simp, by simp, fun q member => ?_⟩
  have blanks :
      Text.byteLength (s.text.reverse.takeWhile isBlank) ≤ Text.byteLength s.text.reverse := by
    conv_rhs => rw [← List.takeWhile_append_dropWhile (p := isBlank) (l := s.text.reverse),
      Text.byteLength_append]
    omega
  rcases List.mem_append.mp member with old | new
  · rcases h with ⟨rfl, _⟩ | ⟨front, back, later, text, _, _, _, inside⟩
    · cases old
    · obtain ⟨line, first, last⟩ := inside q old
      -- the blanks before the first trigger are those before the new one
      have same : s.text.reverse.takeWhile isBlank = front.takeWhile isBlank := by
        rw [text]
        exact Lexeme.takeWhile_stop rfl front _
      refine ⟨line, same ▸ first, ?_⟩
      simp only [text, Position.after_offset, Text.byteLength_append] at last ⊢
      omega
  · rw [List.mem_singleton.mp new, Position.after_of_notMem_newline free']
    exact ⟨rfl, Nat.add_le_add_left blanks _, Nat.le_refl _⟩

end Stretch

namespace Tiled

variable {p : Position} {text : List Char} {tokens : List Token}

theorem line_bounds (h : Tiled p text tokens) {t : Token} (member : t ∈ tokens) :
    p.line ≤ t.start.line ∧ t.start.line ≤ (p.after text).line := by
  obtain ⟨before, body, behind, rfl, covers⟩ := h.place member
  rw [covers.start, Position.after_line, Position.after_line, List.count_append]
  omega

/-- Later tokens start on later lines, or on the same one. -/
theorem lines_ordered (h : Tiled p text tokens) : tokens.Pairwise fun a b =>
    a.start.line ≤ b.start.line := by
  induction h with
  | blank hgap => exact .nil
  | @token p gap body rest t tokens hgap covers tail ih =>
      refine .cons (fun u member => ?_) ih
      have stop := (tail.line_bounds member).1
      rw [covers.stop, Position.after_line, ← covers.start] at stop
      omega

end Tiled

namespace Token.Claim

variable {text : List Char} {pairs : List Position} {tokens : List Token}

theorem extend (h : Claim text pairs tokens) (more : List Char) :
    Claim (text ++ more) pairs tokens := by
  refine ⟨fun earlier t later split kind => ?_, h.covered⟩
  have claims : Claims (text ++ more) (pairs ++ []) earlier t :=
    (h.claims earlier t later split kind).extend (by simp) more
  rwa [List.append_nil] at claims

theorem snoc (h : Claim text pairs tokens) {t : Token} (other : t.kind ≠ .hotkey) :
    Claim text pairs (tokens ++ [t]) := by
  refine ⟨fun earlier u later split kind => ?_, fun p member => ?_⟩
  · rcases List.eq_nil_or_concat later with rfl | ⟨later, last, rfl⟩
    · obtain ⟨_, same⟩ := List.append_inj' split rfl
      rw [List.singleton_inj] at same
      exact absurd (same ▸ kind) other
    · have split' : tokens ++ [t] = (earlier ++ u :: later) ++ [last] := by simpa using split
      exact h.claims earlier u later (List.append_inj' split' rfl).1 kind
  · obtain ⟨u, inside, found⟩ := h.covered p member
    exact ⟨u, List.mem_append_left _ inside, found⟩

end Token.Claim

namespace Scanner

theorem mem_held {s : Scanner} {t : Token} :
    t ∈ s.held ↔ t ∈ s.stretch.tokens ∨ t ∈ s.settled := by simp [held, or_comm]

/-- The hotkeys of what is settled claim their lines, and the stretch, entered at the start of its
line or behind a string from an earlier one, has its own. -/
structure Claimed (s : Scanner) (text : List Char) (old new : List Position) : Prop where
  holds : s.Holds text
  line : ∃ lines lead, text = lines ++ (lead ++ s.stretch.text.reverse) ∧ s.stretch.start =
    Position.start.after (lines ++ lead) ∧ WholeLines lines ∧ '\n' ∉ lead ∧ '\n' ∉ s.stretch.text ∧
    (lead = [] ∨ ∃ t ∈ s.settled, t.kind = .string ∧ t.stop = s.stretch.start)
  above : ∀ t ∈ s.settled, t.start.line < s.stretch.start.line
  earlier : ∀ p ∈ old, p.line < s.stretch.start.line
  settled : Token.Claim text old s.settled.reverse
  stretch : s.stretch.Claimed new

theorem initial_claimed : initial.Claimed [] [] [] := by
  refine ⟨initial_holds, ⟨[], [], rfl, rfl, wholeLines_nil, by simp, by simp [initial,
    Stretch.fresh], .inl rfl⟩, ?_, ?_, ?_, Stretch.fresh_claimed _⟩
  · simp [initial]
  · simp
  · exact ⟨fun earlier h later split => by simp [initial] at split, by simp⟩

namespace Claimed

variable {s : Scanner} {text : List Char} {old new : List Position}

theorem stretch_line (h : s.Claimed text old new) : ∀ q ∈ new, q.line = s.stretch.start.line := by
  intro q member
  rcases h.stretch with ⟨rfl, _⟩ | ⟨_, _, _, _, _, _, _, inside⟩
  · cases member
  · exact (inside q member).1

theorem settled_stop (h : s.Claimed text old new) {t : Token} (member : t ∈ s.settled) :
    t.stop.offset ≤ s.stretch.start.offset := by
  obtain ⟨older, _, tiled, start⟩ := h.holds.parts
  rw [start]
  exact tiled.stop_le (List.mem_reverse.mpr member)

/-- The hotkey that the stretch has by now claims its line. -/
theorem claims_stretch (h : s.Claimed text old new) {front back : List Char}
    (split : s.stretch.text.reverse = front ++ ':' :: ':' :: back)
    (pair : s.stretch.start.after front ∈ new)
    (last : ∀ q ∈ new, q.offset ≤ (s.stretch.start.after front).offset) :
    Token.Claims text (old ++ new) s.settled.reverse (Stretch.hotkey
        ⟨s.stretch.start, front.reverse, []⟩ ((s.stretch.start.after front).after [':', ':'])) := by
  obtain ⟨lines, lead, whole, start, wholeLines, leadFree, stretchFree, entered⟩ := h.line
  have parts : front.takeWhile isBlank ++ front.dropWhile isBlank = front :=
    List.takeWhile_append_dropWhile
  have frontFree : '\n' ∉ front := by
    intro member
    have inside : '\n' ∈ s.stretch.text.reverse := split ▸ List.mem_append_left _ member
    exact stretchFree (List.mem_reverse.mp inside)
  have place : s.stretch.start.after front = Position.start.after
      (lines ++ (lead ++ (front.takeWhile isBlank ++ front.dropWhile isBlank))) := by
    rw [parts, start, ← Position.after_append, List.append_assoc]
  have hstart : (s.stretch.start.after (front.takeWhile isBlank)).line = s.stretch.start.line := by
    rw [Position.after_of_notMem_newline fun member => frontFree (List.takeWhile_subset _ member)]
  refine ⟨lines, lead, front.takeWhile isBlank, front.dropWhile isBlank, back, ?_,
    ⟨wholeLines, ?_, ?_, ?_, ?_, ?_, ?_, ?_, ?_, ?_, ?_⟩⟩
  · rw [whole, split, ← List.append_assoc (front.takeWhile isBlank), parts]
  · rw [parts, List.mem_append, not_or]
    exact ⟨leadFree, frontFree⟩
  · refine entered.imp_right ?_
    rintro ⟨t, member, string, stop⟩
    exact ⟨t, List.mem_reverse.mpr member, string, stop.trans start⟩
  · intro t member
    have settled := List.mem_reverse.mp member
    have stop := h.settled_stop settled
    rw [start, Position.after_offset, Position.start_offset, Nat.zero_add] at stop
    refine ⟨?_, stop⟩
    simp only [Stretch.hotkey, List.reverse_reverse, hstart]
    exact h.above t settled
  · exact fun c member => List.mem_takeWhile_imp member
  · cases ends : front.dropWhile isBlank with
    | nil => rfl
    | cons c rest =>
        simpa using Text.dropWhile_stops (Option.mem_def.mpr (congrArg List.head? ends))
  · simp only [Stretch.hotkey, List.reverse_reverse]
    rw [start, ← Position.after_append, List.append_assoc]
  · exact congrArg (Position.after · [':', ':']) place
  · simp only [Stretch.hotkey, List.rdropWhile, dropWhile_reverse_comm]
  · exact place ▸ List.mem_append_right old pair
  · intro q member same
    rcases List.mem_append.mp member with earlier | here
    · simp only [Stretch.hotkey, List.reverse_reverse, hstart] at same
      exact absurd same (Nat.ne_of_lt (h.earlier q earlier))
    · have bound := last q here
      rw [place, Position.after_offset, Position.start_offset, Nat.zero_add] at bound
      exact bound

/-- All hotkeys held claim their lines. -/
theorem held (h : s.Claimed text old new) : Token.Claim text (old ++ new) s.held := by
  have kept : ∀ t, t ∈ s.settled.reverse → t.start.line < s.stretch.start.line :=
    fun t member => h.above t (List.mem_reverse.mp member)
  refine ⟨fun earlier t later split kind => ?_, fun p member => ?_⟩
  · -- a hotkey stands among the settled tokens, or it comes first in the stretch
    have place : (∃ rest, s.settled.reverse = earlier ++ t :: rest) ∨ ∃ between, earlier =
        s.settled.reverse ++ between ∧ s.stretch.tokens.reverse = between ++ t :: later := by
      rw [Scanner.held, List.reverse_append] at split
      rcases List.append_eq_append_iff.mp split with ⟨between, front, rest⟩ | ⟨between, front, rest⟩
      · exact .inr ⟨between, front, rest⟩
      · cases between with
        | nil => exact .inr ⟨[], by simpa using front.symm, by simpa using rest.symm⟩
        | cons u between =>
            obtain ⟨rfl, _⟩ := List.cons.inj rest
            exact .inl ⟨between, front⟩
    rcases place with ⟨rest, settled⟩ | ⟨between, rfl, stretch⟩
    · have claims := h.settled.claims earlier t rest settled kind
      have line := kept t (settled ▸ List.mem_append_right earlier List.mem_cons_self)
      have claims' := claims.extend (fun q member => (h.stretch_line q member).symm ▸ line) []
      rwa [List.append_nil] at claims'
    · rcases h.stretch with ⟨_, plain⟩ | ⟨front, back, others, whole, tokens, plain, pair, inside⟩
      · have member : t ∈ s.stretch.tokens :=
          List.mem_reverse.mp (stretch ▸ List.mem_append_right between List.mem_cons_self)
        exact absurd kind (plain t member)
      · rw [tokens, List.reverse_append, List.reverse_singleton, List.singleton_append] at stretch
        cases between with
        | nil =>
            obtain ⟨rfl, _⟩ := List.cons.inj stretch
            rw [List.append_nil]
            exact h.claims_stretch whole pair fun q member => (inside q member).2.2
        | cons u between =>
            have member : t ∈ others.reverse :=
              (List.cons.inj stretch).2 ▸ List.mem_append_right between List.mem_cons_self
            exact absurd kind (plain t (List.mem_reverse.mp member))
  · rcases List.mem_append.mp member with early | here
    · obtain ⟨t, settled, found⟩ := h.settled.covered p early
      exact ⟨t, mem_held.mpr (.inr (List.mem_reverse.mp settled)), found⟩
    · rcases h.stretch with ⟨rfl, _⟩ | ⟨front, back, others, whole, tokens, plain, pair, inside⟩
      · cases here
      · obtain ⟨_, first, last⟩ := inside p here
        refine ⟨_, mem_held.mpr (.inl (tokens ▸ List.mem_concat_self)), rfl, ?_, ?_⟩
        · simpa [Stretch.hotkey] using first
        · simp only [Stretch.hotkey, Position.after_offset] at last ⊢
          exact Nat.add_le_add_right last 2

/-- What comes on the line behind the last pair is left alone. -/
theorem past (h : s.Claimed text old new) {body : List Char} {tokens : List Token}
    (free : '\n' ∉ body)
    (other : ∀ t ∈ tokens, t.kind ≠ .hotkey) (holds : (s.past body tokens).Holds (text ++ body)) :
    (s.past body tokens).Claimed (text ++ body) old new := by
  obtain ⟨lines, lead, whole, start, wholeLines, leadFree, stretchFree, entered⟩ := h.line
  refine ⟨holds, ⟨lines, lead, ?_, start, wholeLines, leadFree, ?_, entered⟩, h.above, h.earlier,
    h.settled.extend body, ?_⟩
  · simp [Scanner.past, whole]
  · simpa [Scanner.past, List.mem_append, not_or] using ⟨free, stretchFree⟩
  · exact h.stretch.behind body fun t member => other t (List.mem_reverse.mp member)

/-- A pair claims the stretch. -/
theorem colonPair (h : s.Claimed text old new) (rest : List Char) :
    (s.take ⟨.colonPair, [':', ':'], rest⟩).Claimed (text ++ [':', ':']) old (new ++ [s.here]) := by
  obtain ⟨lines, lead, whole, start, wholeLines, leadFree, stretchFree, entered⟩ := h.line
  refine ⟨h.holds.colonPair rest, ⟨lines, lead, ?_, start, wholeLines, leadFree, ?_, entered⟩,
    h.above, h.earlier, h.settled.extend _, ?_⟩
  · simp [take, whole]
  · simpa [take] using stretchFree
  · have claimed := h.stretch.pair stretchFree
    rw [h.holds.stretch_after] at claimed
    exact claimed

/-- A line feed settles the hotkey of its line. -/
theorem feed (h : s.Claimed text old new) {kind : Kind} {a b : List Char} (other : kind ≠ .hotkey)
    (final : '\n' ∉ b) (string : b = [] ∨ kind = .string)
    (holds : (s.push kind (a ++ '\n' :: b)).Holds (text ++ (a ++ '\n' :: b))) :
    (s.push kind (a ++ '\n' :: b)).Claimed (text ++ (a ++ '\n' :: b)) (old ++ new) [] := by
  have inside : '\n' ∈ a ++ '\n' :: b := List.mem_append_right a List.mem_cons_self
  have below : s.here.line < (s.here.after (a ++ '\n' :: b)).line := by
    rw [Position.after_line]
    exact Nat.lt_add_of_pos_right (List.count_pos_iff.mpr inside)
  have upTo : s.stretch.start.line ≤ s.here.line := by
    rw [← h.holds.stretch_after, Position.after_line]
    exact Nat.le_add_right _ _
  have stop : s.here.after (a ++ '\n' :: b) = Position.start.after (text ++ (a ++ '\n' :: b)) := by
    rw [h.holds.here, ← Position.after_append]
  simp only [push, inside, if_true] at holds ⊢
  refine ⟨holds, ⟨text ++ (a ++ ['\n']), b, ?_, ?_, wholeLines_append text a, final, ?_, ?_⟩, ?_,
    ?_, ?_, Stretch.fresh_claimed _⟩
  · simp [Stretch.fresh]
  · simp [Stretch.fresh, stop]
  · simp [Stretch.fresh]
  · exact string.imp_right fun kind => ⟨_, List.mem_cons_self, kind, rfl⟩
  · intro t member
    refine Nat.lt_of_le_of_lt ?_ below
    rcases List.mem_cons.mp member with rfl | held
    · exact Nat.le_refl _
    · have line := (h.holds.tiled.line_bounds (List.mem_reverse.mpr held)).2
      rwa [← h.holds.here] at line
  · intro p member
    refine Nat.lt_of_le_of_lt ?_ below
    rcases List.mem_append.mp member with early | here
    · exact Nat.le_trans (Nat.le_of_lt (h.earlier p early)) upTo
    · exact Nat.le_trans (Nat.le_of_eq (h.stretch_line p here)) upTo
  · rw [List.reverse_cons]
    exact (h.held.extend _).snoc other

/-- One lexeme more, which may be a pair. -/
theorem take (h : s.Claimed text old new) {c : Char} {rest : List Char}
    (closed : (Lexeme.read c rest).shape ≠ .unclosed) : ∃ old' new',
    (s.take (Lexeme.read c rest)).Claimed (text ++ (Lexeme.read c rest).text) old' new' ∧ old' ++
      new' = old ++ new ++ if (Lexeme.read c rest).shape = .colonPair then [s.here] else [] := by
  have holds := h.holds.take c rest closed
  have hotkey := Lexeme.read_ne_hotkey c rest
  have feeds := fun {a b k} => @Lexeme.read_behind_feed c rest a b k
  have cases := Lexeme.read_cases c rest
  generalize Lexeme.read c rest = lexeme at *
  obtain ⟨shape, body, behind⟩ := lexeme
  dsimp only at cases closed holds hotkey feeds ⊢
  rcases cases with ⟨rfl, rfl, blank⟩ | ⟨kind, rfl, _⟩ | ⟨rfl, rfl⟩ | ⟨rfl, _⟩
  · refine ⟨old, new, h.past ?_ (List.forall_mem_nil _) holds, by simp⟩
    rw [List.mem_singleton]
    rintro rfl
    cases blank
  · have other : kind ≠ .hotkey := fun same => hotkey (congrArg Shape.token same)
    by_cases inside : '\n' ∈ body
    · obtain ⟨b, a, split, final⟩ := List.eq_append_cons_of_mem (List.mem_reverse.mpr inside)
      have parts :
        body = a.reverse ++ '\n' :: b.reverse := by simpa using congrArg List.reverse split
      subst parts
      exact ⟨_, _, h.feed other (by simpa using final) (feeds rfl rfl) holds, by simp⟩
    · simp only [Scanner.take, push_eq_past kind inside] at holds ⊢
      exact ⟨old, new, h.past inside (by simpa using other) holds, by simp⟩
  · exact ⟨old, new ++ [s.here], h.colonPair behind, by simp⟩
  · exact absurd rfl closed

/-- All hotkeys held after a run claim their lines, also where a string never closes. -/
theorem run {more : List Char} (h : s.Claimed text old new) :
    Token.Claim (text ++ more) (old ++ new ++ colonPairs .code s.here more)
    (s.run more).1.held := by
  fun_induction Scanner.run s more generalizing text old new with
  | case1 s => simpa [colonPairs] using h.held
  | case2 s c rest lexeme =>
      rename_i shape
      have quote : c = '"' := Lexeme.read_unclosed shape
      subst quote
      have free : '"' ∉ rest := by
        intro member
        have other := List.dropWhile_eq_nil_iff.mp (Lexeme.readString_unclosed shape) _ member
        simp at other
      rw [colonPairs_open free, List.append_nil]
      simpa [Scanner.held, Scanner.take, shape] using h.held.extend ('"' :: rest)
  | case3 s c rest lexeme shape =>
      rename_i ih
      obtain ⟨old', new', step, pairs⟩ := h.take shape
      have whole := ih step
      rw [List.append_assoc, Lexeme.read_append, pairs, List.append_assoc, take_here,
        ← colonPairs_lexeme shape] at whole
      exact whole

end Claimed

end Scanner

/-- The hotkeys of a scan claim their lines, and every colon pair of the script stands in one. -/
theorem lineTokens_claim (source : String) :
    Token.Claim source.toList (pairsOf source) (lineTokens source) := by
  rw [lineTokens_eq]
  exact Scanner.initial_claimed.run

theorem pairwise_of_splits {α : Type} {before : α → α → Prop} {items : List α}
    (h : ∀ front b back, items = front ++ b :: back → ∀ a ∈ front, before a b) :
    items.Pairwise before := by
  induction items using List.reverseRecOn with
  | nil => exact .nil
  | append_singleton items last ih =>
      refine List.pairwise_append.mpr
        ⟨ih fun front b back split => ?_, List.pairwise_singleton _ _, fun a member b final => ?_⟩
      · exact h front b (back ++ [last]) (by simp [split])
      · rw [List.mem_singleton.mp final]
        exact h items last [] rfl a member

/-- The tokens of a scan, the end mark too, start on lines in order. -/
theorem lines_ordered (source : String) : (scan source).tokens.Pairwise fun a b =>
    a.start.line ≤ b.start.line := by
  obtain ⟨read, rest, text, tiled⟩ := lineTokens_tiled source
  rw [scan_tokens, List.pairwise_append]
  refine ⟨tiled.lines_ordered, List.pairwise_singleton _ _, fun t member u final => ?_⟩
  have bound := (tiled.line_bounds member).2
  rw [List.mem_singleton.mp final, text, Position.after_append, Position.after_line _ rest]
  exact Nat.le_trans bound (Nat.le_add_right _ _)

namespace Token

/-- Where a hotkey could start at the earliest: at the start of its line, but not before the end of
a string from an earlier one. -/
def floors (source : String) (tokens : List Token) (h : Token) : Set Nat :=
  {n | n = (LineIndex.ofSource source).lineStart h.start.line ∨
    ∃ t ∈ tokens, t.kind = .string ∧ t.start.line < h.start.line ∧ n = t.stop.offset}

/-- A hotkey among the tokens of a script with these colon pairs: it reaches from the first
character that is no blank behind the last of its floors to the end of the last pair on its line,
and its text is cut free of blanks before that pair. -/
structure Canonical (source : String) (tokens : List Token) (pairs : List Position)
    (h : Token) : Prop where
  start : ∃ floor gap, IsGreatest (h.floors source tokens) floor ∧
    Text.slice? source.toList floor h.start.offset = some gap ∧ (∀ c ∈ gap, isBlank c = true) ∧
    ∃ c rest, Text.dropBytes? h.start.offset source.toList = some (c :: rest) ∧ isBlank c = false
  stop : ∃ p ∈ pairs, p.line = h.start.line ∧ h.stop = p.after [':', ':'] ∧
    ∀ q ∈ pairs, q.line = h.start.line → q.offset ≤ p.offset
  text : ∃ trigger, Text.slice? source.toList h.start.offset (h.stop.offset - 2) = some trigger ∧
    h.text = String.ofList (trigger.rdropWhile isBlank ++ [':', ':'])

theorem Claims.canonical {source : String} {pairs : List Position} {earlier later : List Token}
    {h : Token} (claims : Claims source.toList pairs earlier h)
    (below : ∀ t ∈ later, h.start.line ≤ t.start.line) :
    h.Canonical source (earlier ++ h :: later) pairs := by
  obtain ⟨lines, lead, gap, trigger, behind, text, line⟩ := claims
  have hstart : h.start.offset = Text.byteLength (lines ++ (lead ++ gap)) := by
    rw [line.start, Position.after_offset, Position.start_offset, Nat.zero_add]
  have hstop :
      h.stop.offset - 2 = Text.byteLength (lines ++ (lead ++ gap)) + Text.byteLength trigger := by
    have two : Text.byteLength [':', ':'] = 2 := rfl
    rw [line.stop, Position.after_offset, Position.after_offset, Position.start_offset, two]
    simp only [Text.byteLength_append]
    omega
  have free : '\n' ∉ lead ++ gap ∧ '\n' ∉ trigger := by
    have free := line.free
    rw [← List.append_assoc, List.mem_append, not_or] at free
    exact free
  have number : h.start.line = lines.count '\n' + 1 := by
    rw [line.start, Position.after_line, List.count_append, List.count_eq_zero.mpr free.1,
      Nat.add_zero, Nat.add_comm]
    rfl
  have place : Text.LineAt source.toList h.start.line lines
      (lead ++ (gap ++ trigger)) (':' :: ':' :: behind) :=
    ⟨by simp [text], line.whole, number, line.free⟩
  have cut :
    source.toList = (lines ++ (lead ++ gap)) ++ (trigger ++ ':' :: ':' :: behind) := by simp [text]
  refine ⟨⟨Text.byteLength (lines ++ lead), gap, ⟨?_, ?_⟩, ?_, line.blank, ?_⟩, ?_, trigger,
    ?_, line.text⟩
  · rcases line.entered with rfl | ⟨t, member, string, stop⟩
    · exact .inl (by rw [List.append_nil]; exact place.lineStart.symm)
    · refine .inr ⟨t, List.mem_append_left _ member, string, (line.alone t member).1, ?_⟩
      rw [stop, Position.after_offset, Position.start_offset, Nat.zero_add]
  · rintro n (rfl | ⟨t, member, string, above, rfl⟩)
    · rw [LineIndex.ofSource, place.lineStart, Text.byteLength_append]
      exact Nat.le_add_right _ _
    · rcases List.mem_append.mp member with before | here
      · exact (line.alone t before).2
      · rcases List.mem_cons.mp here with rfl | after
        · exact absurd above (Nat.lt_irrefl _)
        · exact absurd above (Nat.not_lt_of_le (below t after))
  · refine Text.slice?_of_eq
      (a := lines ++ lead) (c := trigger ++ ':' :: ':' :: behind) (by simp [text]) rfl ?_
    rw [hstart, ← Text.byteLength_append, List.append_assoc]
  · rw [hstart, cut, Text.dropBytes?_append]
    cases trigger with
    | nil => exact ⟨':', _, rfl, rfl⟩
    | cons c trigger => exact ⟨c, _, rfl, by simpa using line.first⟩
  · refine ⟨_, line.pair, ?_, line.stop, fun q member same => ?_⟩
    · rw [← List.append_assoc lead, ← List.append_assoc, Position.after_append, ← line.start,
        Position.after_of_notMem_newline free.2]
    · have bound := line.last q member same
      rwa [Position.after_offset, Position.start_offset, Nat.zero_add]
  · exact Text.slice?_of_eq (c := ':' :: ':' :: behind) cut hstart hstop

end Token

/-- Before a hotkey no other token starts on its line. Every hotkey of a scan, whether or not a
string stays open, is canonical, and every colon pair stands in exactly one. -/
theorem hotkeys_canonical (source : String) :
    ((scan source).tokens.Pairwise fun t h => h.kind = .hotkey → t.start.line < h.start.line) ∧
    (∀ h ∈ (scan source).tokens, h.kind = .hotkey →
      h.Canonical source (scan source).tokens (pairsOf source)) ∧
    ∀ p ∈ pairsOf source, ∃! h, h ∈ (scan source).tokens ∧ h.kind = .hotkey ∧ h.Encloses p := by
  have ordered := lines_ordered source
  obtain ⟨read, rest, _, tiled⟩ := lineTokens_tiled source
  have tiles := tiled.ordered
  have front := lineTokens_claim source
  rw [scan_tokens] at ordered ⊢
  generalize lineTokens source = tokens at *
  generalize hfinal :
    (⟨.eof, "", Position.start.after source.toList, Position.start.after source.toList⟩ : Token) =
    final at *
  have ends : final.kind ≠ .hotkey := by
    rw [← hfinal]
    exact nofun
  have claim := front.snoc ends
  refine ⟨?_, ?_, ?_⟩
  · refine pairwise_of_splits fun earlier h later split t member kind => ?_
    obtain ⟨_, _, _, _, _, _, line⟩ := claim.claims earlier h later split kind
    exact (line.alone t member).1
  · intro h member kind
    obtain ⟨earlier, later, split⟩ := List.append_of_mem member
    rw [split] at ordered ⊢
    have below := (List.pairwise_cons.mp (List.pairwise_append.mp ordered).2.1).1
    exact (claim.claims earlier h later split kind).canonical below
  · intro p member
    have inside : ∀ {h}, h ∈ tokens ++ [final] → h.kind = .hotkey → h ∈ tokens := by
      intro h member kind
      rcases List.mem_append.mp member with early | last
      · exact early
      · exact absurd (List.mem_singleton.mp last ▸ kind) ends
    obtain ⟨h, member, kind, first, last⟩ := front.covered p member
    refine ⟨h, ⟨List.mem_append_left _ member, kind, first, last⟩, ?_⟩
    rintro k ⟨member', kind', first', last'⟩
    by_contra other
    rcases either_of_pairwise tiles
      (inside member' kind') member other with before | before <;> omega

/-- Two pairs on a line that a string over two lines has entered; a third one stands in a string
that stays open. -/
theorem hotkeys_canonical_open_string :
    ∃ h ∈ (scan "\"a\nb\" é :: c:: d(\":: ").tokens, h.kind = .hotkey ∧ h.text = "é :: c::" ∧
      h.Canonical "\"a\nb\" é :: c:: d(\":: " (scan "\"a\nb\" é :: c:: d(\":: ").tokens
        (pairsOf "\"a\nb\" é :: c:: d(\":: ") ∧
      pairsOf "\"a\nb\" é :: c:: d(\":: " = [⟨2, 6, 9⟩, ⟨2, 10, 13⟩] ∧
      (∃! k, k ∈ (scan "\"a\nb\" é :: c:: d(\":: ").tokens ∧ k.kind = .hotkey ∧
        k.Encloses ⟨2, 6, 9⟩) := by
  obtain ⟨_, canonical, enclosed⟩ := hotkeys_canonical "\"a\nb\" é :: c:: d(\":: "
  have member : ⟨.hotkey, "é :: c::", ⟨2, 4, 6⟩, ⟨2, 12, 15⟩⟩ ∈
      (scan "\"a\nb\" é :: c:: d(\":: ").tokens := by
    decide +kernel
  have pairs : pairsOf "\"a\nb\" é :: c:: d(\":: " = [⟨2, 6, 9⟩, ⟨2, 10, 13⟩] := by decide +kernel
  exact ⟨_, member, rfl, rfl, canonical _ member rfl, pairs,
    enclosed _ (pairs ▸ List.mem_cons_self)⟩

end ScriptLens
