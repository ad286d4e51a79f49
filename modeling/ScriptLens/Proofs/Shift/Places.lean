import ScriptLens.Lint.Style
import ScriptLens.Proofs.Brackets.Order
import ScriptLens.Proofs.Lockstep.Rules

/-!
Places moved along the script. A shift moves byte offsets and keeps their order, as characters that
are put into lines do; lines and columns stay. Spans are joined and findings are put in order as
before.
-/

namespace ScriptLens

/-- A way to move byte offsets that keeps their order. -/
structure Shift where
  offset : Nat → Nat
  strict : ∀ {m n : Nat}, m < n → offset m < offset n

namespace Shift

variable (σ : Shift) {m n : Nat}

theorem lt_iff : σ.offset m < σ.offset n ↔ m < n := by
  refine ⟨fun h => ?_, σ.strict⟩
  rcases Nat.lt_trichotomy m n with less | rfl | more
  · exact less
  · exact absurd h (Nat.lt_irrefl _)
  · exact absurd (σ.strict more) (Nat.lt_asymm h)

theorem le_iff : σ.offset m ≤ σ.offset n ↔ m ≤ n := by
  rw [← Nat.not_lt, ← Nat.not_lt, lt_iff]

end Shift

def Position.shift (σ : Shift) (p : Position) : Position := ⟨p.line, p.column, σ.offset p.offset⟩

def Span.shift (σ : Shift) (s : Span) : Span := ⟨s.start.shift σ, s.stop.shift σ⟩

theorem Span.cover_shift (σ : Shift) (a b : Span) :
    (a.shift σ).cover (b.shift σ) = (a.cover b).shift σ := by
  simp only [cover, shift, Position.shift, gt_iff_lt, σ.lt_iff]
  congr 1
  · split <;> rfl
  · split <;> rfl

/-- A token that stands elsewhere. The lines stay for all of them; the places of line breaks before
the feed, of the ends of comments and of end marks are left open, and so is what strings and
comments hold, but for references in strings. -/
structure Token.Shifted (σ : Shift) (t u : Token) : Prop where
  kind : u.kind = t.kind
  text : t.kind ≠ .string → t.kind ≠ .comment → u.text = t.text
  refers : t.kind = .string →
    Lint.percentVariable.occurs u.text.toList = Lint.percentVariable.occurs t.text.toList
  start : t.kind ≠ .newline → t.kind ≠ .eof → u.start = t.start.shift σ
  stop : t.kind ≠ .comment → t.kind ≠ .eof → u.stop = t.stop.shift σ
  startLine : u.start.line = t.start.line
  stopLine : u.stop.line = t.stop.line

theorem Token.Shifted.span {σ : Shift} {t u : Token} (h : t.Shifted σ u)
    (solid : t.kind.isSolid = true) : u.span = t.span.shift σ := by
  have apart {k : Kind} (other : k.isSolid = false) : t.kind ≠ k := by
    rintro rfl
    rw [solid] at other
    cases other
  rw [Token.span, h.start (apart rfl) (apart rfl), h.stop (apart rfl) (apart rfl)]
  rfl

/-- Two findings that differ in byte offsets at most. -/
structure Diagnostic.Agrees (d e : Diagnostic) : Prop where
  code : e.code = d.code
  severity : e.severity = d.severity
  message : e.message = d.message
  origin : e.origin = d.origin
  rule : e.rule = d.rule
  start : e.range.start.line = d.range.start.line ∧ e.range.start.column = d.range.start.column
  stop : e.range.stop.line = d.range.stop.line ∧ e.range.stop.column = d.range.stop.column

namespace Diagnostic

def shift (σ : Shift) (d : Diagnostic) : Diagnostic := { d with range := d.range.shift σ }

/-- Findings are put in order as they were before they were moved. -/
theorem inOrder_shift (σ : Shift) (found : List Diagnostic) :
    inOrder (found.map (shift σ)) = (inOrder found).map (shift σ) := by
  have order :
      (fun a b : Diagnostic => decide (a.range.start.offset ≤ b.range.start.offset)) = fun a b =>
      decide ((a.shift σ).range.start.offset ≤ (b.shift σ).range.start.offset) := by
    funext a b
    exact decide_eq_decide.mpr σ.le_iff.symm
  have sorted := Sorting.map_sort (shift σ)
    (fun a b => decide (a.range.start.offset ≤ b.range.start.offset)) found
  rw [← order] at sorted
  exact sorted.symm

theorem agrees_shift (σ : Shift) (d : Diagnostic) : d.Agrees (d.shift σ) :=
  ⟨rfl, rfl, rfl, rfl, rfl, ⟨rfl, rfl⟩, rfl, rfl⟩

theorem all_agree_shift (σ : Shift) (found : List Diagnostic) :
    List.Forall₂ Agrees found (found.map (shift σ)) := by
  induction found with
  | nil => exact .nil
  | cons d found ih => exact .cons (agrees_shift σ d) ih

end Diagnostic

end ScriptLens
