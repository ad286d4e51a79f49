import ScriptLens.Proofs.Parser.Run
import Mathlib.Logic.Relation

/-!
A run of a rule is a walk of guarded steps: a token is consumed only where one is ahead, the depth
counter grows only below its limit and shrinks only above zero. Rules give back every level they
take, whether they succeed or fail; only the links of a chain stay until the chain ends.
-/

namespace ScriptLens.Parser

open Relation

/-- One guarded change of the state. Only loud walks note statements that start or are dropped. -/
inductive Step : Bool → State → State → Prop
  | consume {loud s t rest} : s.ahead = t :: rest → Step loud s { s with ahead := rest, last := t }
  | deepen {loud s} : s.depth < maxDepth → Step loud s { s with depth := s.depth + 1 }
  | leave {loud s} : 0 < s.depth → Step loud s { s with depth := s.depth - 1 }
  | release {loud s d} : d ≤ s.depth → Step loud s { s with depth := d }
  | begin {s} : Step true s s.begin
  | drop {s entry} : Step true s { s with skipped := entry :: s.skipped }

/-- A walk of guarded steps. -/
abbrev Walk (loud : Bool) : State → State → Prop := ReflTransGen (Step loud)

theorem Walk.loud {s t : State} (h : Walk false s t) : Walk true s t := by
  refine ReflTransGen.mono ?_ _ _ h
  intro a b step
  cases step with
  | consume ahead => exact .consume ahead
  | deepen below => exact .deepen below
  | leave positive => exact .leave positive
  | release below => exact .release below

namespace State

variable {loud : Bool}

theorem advance_of_cons {s : State} {t : Token} {rest : List Token} (h : s.ahead = t :: rest) :
    s.advance = { s with ahead := rest, last := t } := by
  rw [advance, h]

theorem advance_of_nil {s : State} (h : s.ahead = []) : s.advance = s := by
  rw [advance, h]

theorem walk_advance (s : State) : Walk loud s s.advance := by
  cases h : s.ahead with
  | nil => rw [advance_of_nil h]
  | cons t rest =>
      rw [advance_of_cons h]
      exact .single (.consume h)

@[simp] theorem advance_depth (s : State) : s.advance.depth = s.depth := by
  unfold advance
  split <;> rfl

theorem walk_skipNewlines_go (ts : List Token) (s : State) :
    Walk loud s (skipNewlines.go ts s) := by
  induction ts generalizing s with
  | nil => exact .refl
  | cons t rest ih =>
      rw [skipNewlines.go]
      split
      · exact (walk_advance s).trans (ih _)
      · exact .refl

theorem walk_skipNewlines (s : State) : Walk loud s s.skipNewlines := walk_skipNewlines_go s.ahead s

theorem skipNewlines_go_depth (ts : List Token) (s : State) :
    (skipNewlines.go ts s).depth = s.depth := by
  induction ts generalizing s with
  | nil => rfl
  | cons t rest ih =>
      rw [skipNewlines.go]
      split
      · rw [ih, advance_depth]
      · rfl

@[simp] theorem skipNewlines_depth (s : State) : s.skipNewlines.depth = s.depth :=
  skipNewlines_go_depth s.ahead s

theorem walk_synchronize_go (ts : List Token) (s : State) : Walk loud s (synchronize.go ts s) := by
  induction ts generalizing s with
  | nil => exact .refl
  | cons t rest ih =>
      rw [synchronize.go]
      split
      · exact .refl
      · split
        all_goals first | exact .refl | exact (walk_advance s).trans (ih _)

theorem walk_synchronize (s : State) : Walk loud s s.synchronize :=
  (walk_advance s).trans (walk_synchronize_go _ _)

theorem synchronize_go_depth (ts : List Token) (s : State) :
    (synchronize.go ts s).depth = s.depth := by
  induction ts generalizing s with
  | nil => rfl
  | cons t rest ih =>
      rw [synchronize.go]
      split
      · rfl
      · split
        all_goals first | rfl | rw [ih, advance_depth]

theorem walk_recover (s : State) (first : Token) (e : ParseError) :
    Walk true s (s.recover first e) :=
  s.walk_synchronize.tail .drop

@[simp] theorem recover_depth (s : State) (first : Token) (e : ParseError) :
    (s.recover first e).depth = s.depth := by
  change (synchronize.go s.advance.ahead s.advance).depth = s.depth
  rw [synchronize_go_depth, advance_depth]

theorem walk_consumeAll (ts : List Token) (s : State) :
    Walk loud s (ts.foldl (fun s _ => s.advance) s) := by
  induction ts generalizing s with
  | nil => exact .refl
  | cons t rest ih => exact (walk_advance s).trans (ih _)

theorem consumeAll_depth (ts : List Token) (s : State) :
    (ts.foldl (fun s _ => s.advance) s).depth = s.depth := by
  induction ts generalizing s with
  | nil => rfl
  | cons t rest ih => rw [List.foldl_cons, ih, advance_depth]

end State

end ScriptLens.Parser

namespace ScriptLens.ParseM

open ScriptLens.Parser

variable {α β : Type} {b : Bool}

/-- A rule that walks and may keep levels it took. -/
def Climbs (loud : Bool) (m : ParseM α) : Prop :=
  ∀ s, Walk loud s (m.run s).2 ∧ s.depth ≤ (m.run s).2.depth

/-- A rule that walks and gives back every level it took. -/
def Returns (loud : Bool) (m : ParseM α) : Prop :=
  ∀ s, Walk loud s (m.run s).2 ∧ (m.run s).2.depth = s.depth

theorem Returns.climbs {m : ParseM α} (h : Returns b m) : Climbs b m :=
  fun s => ⟨(h s).1, Nat.le_of_eq (h s).2.symm⟩

theorem Returns.loud {m : ParseM α} (h : Returns false m) : Returns true m :=
  fun s => ⟨(h s).1.loud, (h s).2⟩

theorem Climbs.loud {m : ParseM α} (h : Climbs false m) : Climbs true m :=
  fun s => ⟨(h s).1.loud, (h s).2⟩

section

variable {m : ParseM α} {result : Except ParseError α} {s t : State}

theorem Climbs.walk (h : Climbs b m) (run : m.run s = (result, t)) : Walk b s t := by
  have walk := (h s).1
  rwa [run] at walk

theorem Climbs.depth_le (h : Climbs b m) (run : m.run s = (result, t)) : s.depth ≤ t.depth := by
  have deeper := (h s).2
  rwa [run] at deeper

theorem Returns.walk (h : Returns b m) (run : m.run s = (result, t)) : Walk b s t :=
  h.climbs.walk run

theorem Returns.depth (h : Returns b m) (run : m.run s = (result, t)) : t.depth = s.depth := by
  have back := (h s).2
  rwa [run] at back

end

theorem Climbs.bind {m : ParseM α} {f : α → ParseM β} (hm : Climbs b m)
    (hf : ∀ a, Climbs b (f a)) : Climbs b (m >>= f) := by
  intro s
  have first := hm s
  rw [run_bind]
  generalize m.run s = outcome at first
  obtain ⟨result, t⟩ := outcome
  cases result with
  | error e => exact first
  | ok a => exact ⟨first.1.trans (hf a t).1, Nat.le_trans first.2 (hf a t).2⟩

theorem Returns.bind {m : ParseM α} {f : α → ParseM β} (hm : Returns b m)
    (hf : ∀ a, Returns b (f a)) : Returns b (m >>= f) := by
  intro s
  have first := hm s
  rw [run_bind]
  generalize m.run s = outcome at first
  obtain ⟨result, t⟩ := outcome
  cases result with
  | error e => exact first
  | ok a => exact ⟨first.1.trans (hf a t).1, (hf a t).2.trans first.2⟩

theorem returns_pure (a : α) : Returns b (pure a) := fun _ => ⟨.refl, rfl⟩

theorem returns_get : Returns b get := fun _ => ⟨.refl, rfl⟩

theorem returns_refuse (cause : ParseCause) : Returns b (refuse cause : ParseM α) :=
  fun _ => ⟨.refl, rfl⟩

theorem returns_advance : Returns b advance := fun s => ⟨s.walk_advance, s.advance_depth⟩

theorem returns_check (kind : Kind) : Returns b (check kind) := fun _ => ⟨.refl, rfl⟩

theorem returns_skipNewlines : Returns b skipNewlines :=
  fun s => ⟨s.walk_skipNewlines, s.skipNewlines_depth⟩

theorem returns_eat (kind : Kind) : Returns b (eat kind) := by
  intro s
  rw [run_eat]
  split
  · exact ⟨s.walk_advance, s.advance_depth⟩
  · exact ⟨.refl, rfl⟩

theorem returns_expect (kind : Kind) (what : Expected) : Returns b (expect kind what) := by
  intro s
  rw [run_expect]
  split
  · exact ⟨s.walk_advance, s.advance_depth⟩
  · exact ⟨.refl, rfl⟩

theorem Returns.nested {rule : ParseM α} (h : Returns b rule) : Returns b (nested rule) := by
  intro s
  rw [run_nested]
  split
  · exact ⟨.refl, rfl⟩
  · next below =>
      have inside := h { s with depth := s.depth + 1 }
      have depth : (rule.run { s with depth := s.depth + 1 }).2.depth = s.depth + 1 := inside.2
      refine ⟨?_, by simp [depth]⟩
      have entered : Walk b s { s with depth := s.depth + 1 } := .single (.deepen (by omega))
      exact (entered.trans inside.1).tail (.leave (by omega))

theorem Climbs.chain {rule : ParseM α} (h : Climbs b rule) : Returns b (chain rule) :=
  fun s => ⟨(h s).1.tail (.release (h s).2), rfl⟩

theorem climbs_link : Climbs b link := by
  intro s
  rw [run_link]
  split
  · exact ⟨.refl, Nat.le_refl _⟩
  · exact ⟨.single (.deepen (by omega)), Nat.le_succ _⟩

theorem Climbs.repeating {step : α → ParseM (α × Bool)} (h : ∀ a, Climbs b (step a)) (a : α) :
    Climbs b (repeating step a) := by
  intro s
  have rounds := rounds_repeating step a s
  generalize (ParseM.repeating step a).run s = outcome at rounds ⊢
  induction rounds with
  | failed run => exact ⟨(h _).walk run, (h _).depth_le run⟩
  | stopped run _ => exact ⟨(h _).walk run, (h _).depth_le run⟩
  | again run _ _ ih => exact ⟨((h _).walk run).trans ih.1, Nat.le_trans ((h _).depth_le run) ih.2⟩

theorem Returns.repeating {step : α → ParseM (α × Bool)} (h : ∀ a, Returns b (step a)) (a : α) :
    Returns b (repeating step a) := by
  intro s
  have rounds := rounds_repeating step a s
  generalize (ParseM.repeating step a).run s = outcome at rounds ⊢
  induction rounds with
  | failed run => exact ⟨(h _).walk run, (h _).depth run⟩
  | stopped run _ => exact ⟨(h _).walk run, (h _).depth run⟩
  | again run _ _ ih => exact ⟨((h _).walk run).trans ih.1, ih.2.trans ((h _).depth run)⟩

end ScriptLens.ParseM
