import ScriptLens.Proofs.Lint.Places

/-!
Loops of a tree with the number of loops around each, and the same numbers read off tokens with a
stack of open braces. What the tokens tell depends on which braces belong to a loop: that is decided
for each keyword here, and taken as given.
-/

namespace ScriptLens

/-- Kinds of tokens that make no difference to how loops are nested. -/
def Kind.isCalm (k : Kind) : Bool := !k.isLoop && k ≠ .lBrace && k ≠ .rBrace

/-- Tokens with neither braces nor loop keywords among them. -/
abbrev Token.Calm (ts : List Token) : Prop := ∀ t ∈ ts, t.kind.isCalm = true

namespace Token.Calm

variable {t : Token} {ts us : List Token}

theorem nil : Calm [] := List.forall_mem_nil _

theorem cons (first : t.kind.isCalm = true) (rest : Calm ts) : Calm (t :: ts) :=
  List.forall_mem_cons.mpr ⟨first, rest⟩

theorem one (only : t.kind.isCalm = true) : Calm [t] := cons only nil

theorem append (first : Calm ts) (rest : Calm us) : Calm (ts ++ us) :=
  List.forall_mem_append.mpr ⟨first, rest⟩

theorem newlines (h : ∀ t ∈ ts, t.kind = .newline) : Calm ts := by
  intro t member
  rw [h t member]
  rfl

end Token.Calm

/-- No loop keyword and no brace stands behind a directive on its line. At the start, `inside` tells
whether a directive stands on the line already. -/
def Token.plainDirectives (inside : Bool) : List Token → Bool
  | [] => true
  | t :: rest =>
    (!inside || t.kind.isCalm) &&
      plainDirectives ((inside || t.kind = .directive) && t.kind ≠ .newline) rest

section Directives

open Token

variable {inside : Bool} {front value rest tokens : List Token} {first : Token}

theorem Token.plainDirectives_drop (h : plainDirectives inside (front ++ rest) = true) :
    ∃ inside, plainDirectives inside rest = true := by
  induction front generalizing inside with
  | nil => exact ⟨inside, h⟩
  | cons t front ih =>
      rw [List.cons_append, plainDirectives, Bool.and_eq_true] at h
      exact ih h.2

theorem Token.plainDirectives_take (h : plainDirectives inside (front ++ rest) = true) :
    plainDirectives inside front = true := by
  induction front generalizing inside with
  | nil => rfl
  | cons t front ih =>
      rw [List.cons_append, plainDirectives, Bool.and_eq_true] at h
      rw [plainDirectives, h.1, ih h.2]
      rfl

theorem Token.plainDirectives_value (h : plainDirectives true (value ++ rest) = true)
    (line : ∀ t ∈ value, t.kind ≠ .newline) : Calm value := by
  induction value with
  | nil => exact .nil
  | cons t value ih =>
      obtain ⟨solid, later⟩ := List.forall_mem_cons.mp line
      rw [List.cons_append, plainDirectives, Bool.and_eq_true] at h
      refine .cons (by simpa using h.1) (ih ?_ later)
      simpa [solid] using h.2

/-- The value of a directive. -/
theorem Token.calm_value (h : plainDirectives inside (front ++ first :: (value ++ rest)) = true)
    (kind : first.kind = .directive) (line : ∀ t ∈ value, t.kind ≠ .newline) : Calm value := by
  obtain ⟨inside, h⟩ := plainDirectives_drop h
  rw [plainDirectives, kind, Bool.and_eq_true] at h
  exact plainDirectives_value (by simpa using h.2) line

/-- Comments make no difference. -/
theorem Token.plainDirectives_filter (h : plainDirectives inside tokens = true) :
    plainDirectives inside (tokens.filter (·.kind != .comment)) = true := by
  induction tokens generalizing inside with
  | nil => rfl
  | cons t tokens ih =>
      rw [plainDirectives, Bool.and_eq_true] at h
      rw [List.filter_cons]
      split
      · rw [plainDirectives, h.1, ih h.2]
        rfl
      · next comment =>
          have kind : t.kind = .comment := by simpa using comment
          simpa [kind] using ih h.2

end Directives

namespace Stmt

/-- The statements that a loop repeats. -/
def loopBody? : Stmt → Option (List Stmt)
  | whileLoop _ body _ | forLoop _ _ body _ | loop _ body _ => some body
  | _ => none

/-- A loop has an opening brace between its keyword and the first of the statements that it
repeats. -/
def Braced (tokens : List Token) (stmt : Stmt) : Prop :=
  ∀ body ∈ stmt.loopBody?, ∃ t ∈ tokens, t.kind = .lBrace ∧
    stmt.span.start.offset ≤ t.start.offset ∧ t.stop.offset ≤ stmt.span.stop.offset ∧
    ∀ inside ∈ body, t.stop.offset ≤ inside.span.start.offset

instance (tokens : List Token) (stmt : Stmt) : Decidable (stmt.Braced tokens) := by
  unfold Braced
  infer_instance

/-- All loops in some statement lists have braces. -/
def AllBraced (tokens : List Token) (lists : List (List Stmt)) : Prop :=
  ∀ list ∈ lists, ∀ stmt ∈ list, stmt.Braced tokens

instance (tokens : List Token) (lists : List (List Stmt)) : Decidable (AllBraced tokens lists) := by
  unfold AllBraced
  infer_instance

theorem AllBraced.mono {tokens kept : List Token} {lists : List (List Stmt)}
    (h : AllBraced tokens lists)
    (keeps : ∀ t ∈ tokens, t.kind = .lBrace → t ∈ kept) : AllBraced kept lists := by
  intro list inside stmt member body loop
  obtain ⟨t, there, kind, place⟩ := h list inside stmt member body loop
  exact ⟨t, keeps t there kind, kind, place⟩

variable (opens : Position → Bool)

mutual

/-- The loops in a list of statements, each with the number of loops around it, itself included. Of
the loops around, those count whose braces are taken as open. -/
def loopsIn (around : Nat) : List Stmt → List (Position × Nat)
  | [] => []
  | stmt :: rest => loopsOf around stmt ++ loopsIn around rest

/-- The loops in one statement. -/
def loopsOf (around : Nat) : Stmt → List (Position × Nat)
  | ifs chain => loopsOfChain around chain
  | whileLoop _ body span => (span.start, around + 1) :: loopsIn
      (around + (opens span.start).toNat) body
  | forLoop _ _ body span => (span.start, around + 1) :: loopsIn
      (around + (opens span.start).toNat) body
  | loop _ body span => (span.start, around + 1) :: loopsIn (around + (opens span.start).toNat) body
  | classDecl _ _ _ body _ => loopsIn around body
  | function _ _ _ body _ _ => loopsIn around body
  | hotkey _ body _ => loopsIn around body
  | returns .. | breaks _ | continues _ | directive .. | expression .. => []

def loopsOfChain (around : Nat) : IfChain → List (Position × Nat)
  | .mk _ consequent alternate _ => loopsIn around consequent ++ loopsOfAlternate around alternate

def loopsOfAlternate (around : Nat) : Alternate → List (Position × Nat)
  | .absent => []
  | .elseIf next => loopsOfChain around next
  | .otherwise body => loopsIn around body

end

end Stmt

namespace Lint

variable {opens : Position → Bool}

/-- The loop keywords among tokens, each with the number of loops around it, itself included. A
stack tells of each open brace whether it is a loop's, and `pending` tells it of the next one. -/
def depths (opens : Position → Bool) (opened : List Bool) (pending : Bool) :
    List Token → List (Position × Nat)
  | [] => []
  | t :: rest =>
    if t.kind.isLoop then (t.start, opened.count true + 1) ::
      depths opens opened (opens t.start) rest
    else match t.kind with
      | .lBrace => depths opens (pending :: opened) false rest
      | .rBrace => depths opens opened.tail pending rest
      | _ => depths opens opened pending rest

section Equations

variable {t : Token} {opened : List Bool} {pending : Bool} {ts rest : List Token}

theorem depths_loop (kind : t.kind.isLoop = true) : depths opens opened pending (t :: rest) =
    (t.start, opened.count true + 1) :: depths opens opened (opens t.start) rest := by
  rw [depths, if_pos kind]

theorem depths_open (kind : t.kind = .lBrace) :
    depths opens opened pending (t :: rest) = depths opens (pending :: opened) false rest := by
  rw [depths, kind, if_neg (by decide)]

theorem depths_close (kind : t.kind = .rBrace) :
    depths opens opened pending (t :: rest) = depths opens opened.tail pending rest := by
  rw [depths, kind, if_neg (by decide)]

theorem depths_calm (calm : t.kind.isCalm = true) :
    depths opens opened pending (t :: rest) = depths opens opened pending rest := by
  simp only [Kind.isCalm, Bool.and_eq_true, Bool.not_eq_true', decide_eq_true_eq] at calm
  obtain ⟨⟨plain, opens⟩, closes⟩ := calm
  rw [depths, if_neg (by rw [plain]; decide)]
  split
  · next same => exact absurd same opens
  · next same => exact absurd same closes
  · rfl

theorem depths_calms (calm : Token.Calm ts) :
    depths opens opened pending (ts ++ rest) = depths opens opened pending rest := by
  induction ts with
  | nil => rfl
  | cons t ts ih =>
      have later : Token.Calm ts := fun u member => calm u (List.mem_cons_of_mem t member)
      rw [List.cons_append, depths_calm (calm t List.mem_cons_self), ih later]

/-- Calm tokens may be left out anywhere. -/
theorem depths_filter (chosen : Token → Bool)
    (calm : ∀ t ∈ ts, chosen t = false → t.kind.isCalm = true) :
    depths opens opened pending (ts.filter chosen) = depths opens opened pending ts := by
  induction ts generalizing opened pending with
  | nil => rfl
  | cons t ts ih =>
      have rest {opened : List Bool} {pending : Bool} := @ih opened pending fun u member =>
        calm u (List.mem_cons_of_mem t member)
      rw [List.filter_cons]
      cases found : chosen t with
      | false => rw [if_neg Bool.false_ne_true, rest, depths_calm (calm t List.mem_cons_self found)]
      | true =>
          rw [if_pos rfl, depths, depths]
          split
          · rw [rest]
          · split <;> exact rest

end Equations

section Meanings

variable {loops more : Nat → List (Position × Nat)} {ts us : List Token}

/-- The tokens tell of given loops, which depend on how many loops are around them, and leave
everything else as it was. -/
def Counted (opens : Position → Bool) (loops : Nat → List (Position × Nat))
    (ts : List Token) : Prop :=
  ∀ (opened : List Bool) (rest : List Token), depths opens opened false (ts ++ rest) =
    loops (opened.count true) ++ depths opens opened false rest

/-- Tokens in braces tell of given loops; where a loop waits for its brace they are one level
deeper. -/
def Blocked (opens : Position → Bool) (loops : Nat → List (Position × Nat))
    (ts : List Token) : Prop :=
  ∀ (opened : List Bool) (pending : Bool) (rest : List Token), depths opens opened pending
    (ts ++ rest) = loops (opened.count true + pending.toNat) ++ depths opens opened false rest

theorem counted_calm (calm : Token.Calm ts) : Counted opens (fun _ => []) ts :=
  fun _ _ => depths_calms calm

theorem Counted.append (first : Counted opens loops ts) (second : Counted opens more us) :
    Counted opens (fun around => loops around ++ more around) (ts ++ us) := by
  intro opened rest
  rw [List.append_assoc, first, second, List.append_assoc]

theorem Counted.behind (h : Counted opens loops us) (calm : Token.Calm ts) :
    Counted opens loops (ts ++ us) :=
  (counted_calm calm).append h

theorem Counted.before (h : Counted opens loops ts) (calm : Token.Calm us) :
    Counted opens loops (ts ++ us) := by
  intro opened rest
  rw [List.append_assoc, h, depths_calms calm]

theorem Blocked.counted (h : Blocked opens loops ts) : Counted opens loops ts :=
  fun opened rest => h opened false rest

theorem Blocked.behind (h : Blocked opens loops us) (calm : Token.Calm ts) :
    Blocked opens loops (ts ++ us) := by
  intro opened pending rest
  rw [List.append_assoc, depths_calms calm, h]

theorem Counted.block {opening closing : Token} (h : Counted opens loops ts)
    (begins : opening.kind = .lBrace)
    (ends : closing.kind = .rBrace) : Blocked opens loops (opening :: (ts ++ [closing])) := by
  intro opened pending rest
  rw [List.cons_append, List.append_assoc, depths_open begins, h, List.singleton_append,
    depths_close ends, List.tail_cons]
  cases pending <;> simp

/-- A loop is its keyword and the block behind it. -/
theorem Blocked.loop {keyword : Token} (h : Blocked opens loops ts)
    (kind : keyword.kind.isLoop = true) : Counted opens
    (fun around => (keyword.start, around + 1) :: loops (around + (opens keyword.start).toNat))
      (keyword :: ts) := by
  intro opened rest
  rw [List.cons_append, depths_loop kind, h]
  rfl

end Meanings

end Lint

end ScriptLens
