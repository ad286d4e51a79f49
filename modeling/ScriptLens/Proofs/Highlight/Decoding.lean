import ScriptLens.Proofs.Highlight.Tiling

/-!
The relative encoding and back. An editor adds up the lines, and adds up the characters while it
stays on a line. The stretches of a script come in order, so no difference falls below zero and the
sums are the places again.
-/

namespace ScriptLens

namespace Highlight

/-- A stretch as an editor sees it: absolute, its type and modifiers by their numbers in the
legend. -/
structure Mark where
  line : Nat
  character : Nat
  length : Nat
  type : Nat
  bits : Nat
deriving DecidableEq, Repr

def mark (h : Highlight) : Mark := ⟨h.line, h.character, h.length, h.type.index, h.modifierBits⟩

/-- Adds up deltas behind a line and a character; on a new line the character counts from zero. -/
def decodeFrom (line character : Nat) : List Delta → List Mark
  | [] => []
  | d :: rest =>
    let down := line + d.line
    let across := if d.line = 0 then character + d.start else d.start
    ⟨down, across, d.length, d.type, d.bits⟩ :: decodeFrom down across rest

def decode (deltas : List Delta) : List Mark := decodeFrom 0 0 deltas

/-- A difference, unless it falls below zero. -/
def sub? (a b : Nat) : Option Nat := if b ≤ a then some (a - b) else none

theorem sub?_of_le {a b : Nat} (h : b ≤ a) : sub? a b = some (a - b) := if_pos h

/-- The encoding by differences that may fail. -/
def encodeFrom? (line character : Nat) : List Highlight → Option (List Delta)
  | [] => some []
  | h :: rest => do
    let down ← sub? h.line line
    let across ← if down = 0 then sub? h.character character else some h.character
    let deltas ← encodeFrom? h.line h.character rest
    return ⟨down, across, h.length, h.type.index, h.modifierBits⟩ :: deltas

def encode? (highlights : List Highlight) : Option (List Delta) := encodeFrom? 0 0 highlights

/-- Each stretch starts behind the one before it, the first one at a line and a character or behind
them. -/
def Follow (line character : Nat) : List Highlight → Prop
  | [] => True
  | h :: rest => (line < h.line ∨ line = h.line ∧ character ≤ h.character) ∧
      Follow h.line h.character rest

variable {hs : List Highlight} {line character : Nat}

theorem follow_of_increasing
    (first : ∀ h ∈ hs.head?, line < h.line ∨ line = h.line ∧ character ≤ h.character)
    (order : hs.Pairwise fun h k => h.line < k.line ∨ h.line = k.line ∧ h.character < k.character) :
    Follow line character hs := by
  induction hs generalizing line character with
  | nil => trivial
  | cons h hs ih =>
      obtain ⟨before, later⟩ := List.pairwise_cons.mp order
      refine ⟨first h rfl, ih ?_ later⟩
      intro k head
      exact (before k (List.mem_of_mem_head? head)).imp_right fun same =>
        ⟨same.1, Nat.le_of_lt same.2⟩

/-- No difference falls below zero. -/
theorem encodeFrom?_eq (follow : Follow line character hs) :
    encodeFrom? line character hs = some (encodeFrom line character hs) := by
  induction hs generalizing line character with
  | nil => rfl
  | cons h hs ih =>
      obtain ⟨down | ⟨rfl, right⟩, later⟩ := follow
      · have apart : ¬h.line - line = 0 := by omega
        have other : h.line ≠ line := by omega
        simp [encodeFrom?, encodeFrom, ih later, sub?_of_le (Nat.le_of_lt down), apart, other]
      · simp [encodeFrom?, encodeFrom, ih later, sub?_of_le (Nat.le_refl _), sub?_of_le right]

/-- Adding up the differences gives the places again. -/
theorem decodeFrom_encodeFrom (follow : Follow line character hs) :
    decodeFrom line character (encodeFrom line character hs) = hs.map mark := by
  induction hs generalizing line character with
  | nil => rfl
  | cons h hs ih =>
      obtain ⟨down | ⟨rfl, right⟩, later⟩ := follow
      · have apart : ¬h.line - line = 0 := by omega
        have other : h.line ≠ line := by omega
        have sum : line + (h.line - line) = h.line := by omega
        simp [encodeFrom, decodeFrom, apart, other, sum, ih later, mark]
      · have sum : character + (h.character - character) = h.character := by omega
        simp [encodeFrom, decodeFrom, sum, ih later, mark]

theorem InSequence.follow (h : InSequence hs) : Follow 0 0 hs := by
  refine follow_of_increasing ?_ h.increasing
  intro k _
  omega

end Highlight

/-- The stretches of a script come in order, none of them empty and each over characters of the
script; in a script that lexes every character but blanks and line feeds stands under exactly one.
So their encoding never subtracts below zero, and an editor that adds the differences up gets each
stretch back. -/
theorem highlights_tile (source : String) : Highlight.InSequence (Highlight.ofSource source) ∧
    (∀ h ∈ Highlight.ofSource source, ∀ i < h.length, ∃ front c back,
      source.toList = front ++ c :: back ∧ h.line + 1 = (Position.start.after front).line ∧
      h.character + 1 + i = (Position.start.after front).column) ∧
    (∀ tokens, tokenize source = .ok tokens → ∀ front c back, source.toList = front ++ c :: back →
      c ∉ [' ', '\t', '\r', '\ufeff', '\n'] →
      ∃! h, h ∈ Highlight.ofSource source ∧ h.Covers (Position.start.after front)) ∧
    Highlight.encode? (Highlight.ofSource source) =
    some (Highlight.encode (Highlight.ofSource source)) ∧
    Highlight.decode (Highlight.encode (Highlight.ofSource source)) =
      (Highlight.ofSource source).map Highlight.mark := by
  obtain ⟨read, rest, whole, shows⟩ := Highlight.shows_source source
  have sequence := shows.inSequence
  refine ⟨sequence, ?_, ?_, Highlight.encodeFrom?_eq sequence.follow,
    Highlight.decodeFrom_encodeFrom sequence.follow⟩
  · intro h member i hi
    obtain ⟨front, c, back, text, line, column⟩ := shows.inside member hi
    exact ⟨front, c, back ++ rest, by simp [whole, text], line, column⟩
  · intro tokens lexed front c back text other
    have shown : Highlight.isDark c = false := by
      simpa [Highlight.isDark, isBlank, and_assoc] using other
    exact (Highlight.shows_lexed lexed).coveredOnce text shown

/-- A string over three lines, with an empty line and a carriage return in it, and a hotkey on its
last line. -/
theorem highlights_tile_hotkey :
    (Highlight.ofSource "s := \"é\r\n\nb\" ^c::f()\n").map Highlight.mark =
      [⟨0, 0, 1, 8, 0⟩, ⟨0, 2, 2, 4, 0⟩, ⟨0, 5, 2, 2, 0⟩,
        ⟨2, 0, 2, 2, 0⟩, ⟨2, 3, 4, 7, 0⟩, ⟨2, 7, 1, 9, 0⟩, ⟨2, 8, 1, 5, 0⟩, ⟨2, 9, 1, 5, 0⟩] ∧
    ∃! h, h ∈ Highlight.ofSource "s := \"é\r\n\nb\" ^c::f()\n" ∧ h.Covers ⟨3, 5, 15⟩ := by
  have lexed :
      tokenize "s := \"é\r\n\nb\" ^c::f()\n" = .ok (scan "s := \"é\r\n\nb\" ^c::f()\n").tokens := by
    decide +kernel
  refine ⟨by decide +kernel, ?_⟩
  exact (highlights_tile _).2.2.1 _ lexed "s := \"é\r\n\nb\" ^".toList 'c' "::f()\n".toList
    (by decide +kernel) (by decide)

end ScriptLens
