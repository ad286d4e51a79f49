import ScriptLens.Proofs.Parser.Total
import ScriptLens.Proofs.Print.Scanned
import ScriptLens.Proofs.Print.Statements

/-!
Printing and parsing. The canonical form of a script is read back as the script, up to spans, if it
takes no more levels than the depth counter has; with one level more a statement is dropped.
-/

namespace ScriptLens

open ParseM ScriptLens.Parser

/-- A script without its spans. -/
def Program.bare (p : Program) : Program := ⟨p.body.map Stmt.bare, default⟩

/-- The state before tokens that an end mark closes. -/
theorem ofTokens_ends (source : String) {tokens : List Token} {final : Token}
    (eof : final.kind = .eof) (kinds : ∀ t ∈ tokens, t.kind ≠ .eof ∧ t.kind ≠ .comment) :
    (State.ofTokens source (tokens ++ [final])).ahead = tokens ∧
      (State.ofTokens source (tokens ++ [final])).Closed := by
  have kept : State.prepare (tokens ++ [final]) = tokens ++ [final] := by
    have all : (tokens ++ [final]).filter (·.kind != .comment) = tokens ++ [final] := by
      refine List.filter_eq_self.mpr ?_
      intro t member
      rcases List.mem_append.mp member with before | last
      · simpa using (kinds t before).2
      · rw [List.mem_singleton.mp last]
        simp [eof]
    simp [State.prepare, all, eof]
  have ahead : (tokens ++ [final]).takeWhile (·.kind != .eof) = tokens := by
    rw [List.takeWhile_append_of_pos fun t member => by simpa using (kinds t member).1]
    simp [eof]
  refine ⟨?_, (State.cursor_ofTokens source (tokens ++ [final])).final⟩
  simp only [State.ofTokens, kept, ahead]

/-- What the parser makes of the words of a script. -/
theorem parseTokens_spelled {source : String} {body : List Stmt} {tokens : List Token}
    {final : Token} (wf : Stmt.allWellFormed body = true)
    (spells : Spells source.toList (Word.flat (Stmt.allLines body)) tokens)
    (eof : final.kind = .eof) (kinds : ∀ t ∈ tokens, t.kind ≠ .eof ∧ t.kind ≠ .comment) :
    (Stmt.bodyCost body ≤ maxDepth ∧ (parseTokens source (tokens ++ [final])).skipped = [] ∧
        (parseTokens source (tokens ++ [final])).program.body.map Stmt.bare = body.map Stmt.bare) ∨
      (maxDepth < Stmt.bodyCost body ∧ (parseTokens source (tokens ++ [final])).skipped ≠ []) := by
  obtain ⟨ahead, closed⟩ := ofTokens_ends source eof kinds
  have all : ∀ s ∈ body, FormsStmt s := fun s member => formsStmt s (Stmt.mem_wellFormed wf member)
  have forms :
      Forms script (Word.flat (Stmt.allLines body)) (Stmt.bodyCost body) (fun rest => rest = [])
      fun result => result.map Stmt.bare = body.map Stmt.bare :=
    statementsUntil_forms ending_script reads_skipNewlines all
  have here : (State.ofTokens source (tokens ++ [final])).ahead = tokens ++ [] := by
    rw [ahead, List.append_nil]
  have depth : (State.ofTokens source (tokens ++ [final])).depth = 0 := rfl
  rcases forms _ tokens [] closed spells here rfl (Nat.zero_le _) with
    ⟨fits, result, t, run, past, same⟩ | ⟨exceeds, spoiled⟩
  · obtain ⟨body', skipped⟩ := parseTokens_of_run run
    rw [depth, Nat.zero_add] at fits
    refine .inl ⟨fits, ?_, by rw [body', same]⟩
    rw [skipped, past.skipped]
    rfl
  · obtain ⟨result, t, run, _⟩ := script_ok closed
    obtain ⟨_, skipped⟩ := parseTokens_of_run run
    rw [depth, Nat.zero_add] at exceeds
    refine .inr ⟨exceeds, ?_⟩
    rw [run] at spoiled
    rcases spoiled with ⟨e, failed⟩ | dropped
    · cases failed
    · rw [skipped]
      have some : 0 < t.skipped.length := dropped
      simpa using List.length_pos_iff.mp some

/-- A script that can be printed is read back from its canonical form, with nothing dropped, if the
levels it takes are within the limit of the depth counter. Beyond the limit something is always
dropped. -/
theorem parse_print (p : Program) (wf : p.wellFormed = true) :
    ∃ out, parse p.print = .ok out ∧
      (p.cost ≤ maxDepth → out.skipped = [] ∧ out.program.bare = p.bare) ∧
      (maxDepth < p.cost → out.skipped ≠ []) := by
  obtain ⟨tokens, final, scanned, eof, spells, kinds⟩ := tokenize_print wf
  refine ⟨parseTokens p.print (tokens ++ [final]), ?_, ?_, ?_⟩
  · rw [parse, scanned]
    rfl
  · intro fits
    rcases parseTokens_spelled wf spells eof kinds with ⟨_, skipped, same⟩ | ⟨exceeds, _⟩
    · refine ⟨skipped, ?_⟩
      rw [Program.bare, Program.bare, same]
    · exact absurd fits (Nat.not_le.mpr exceeds)
  · intro exceeds
    rcases parseTokens_spelled wf spells eof kinds with ⟨fits, _⟩ | ⟨_, skipped⟩
    · exact absurd exceeds (Nat.not_lt.mpr fits)
    · exact skipped

/-- A script with a directive, a hotkey, a chain of conditions and a function with a default. -/
def sample : Program :=
  let x : Expr := .name "x" false default
  let y : Expr := .name "A_Index" true default
  let text : Expr := .literal (.string "a b") "\"a b\"" default
  ⟨[.directive "#Requires" "AutoHotkey v2.0" default,
    .hotkey "^j::" [.ifs (.mk (.binary .less x y default) [.breaks default]
      (.elseIf (.mk x [] (.otherwise [.continues default]) default)) default)] default, .function
    "f" default [⟨"x", true, false, none, default⟩, ⟨"rest", false, true, some text, default⟩]
      [.returns (some (.binary .multiply (.binary .add x y default) (.call x [y] default) default))
      default] true default], default⟩

theorem parse_print_sample : ∃ out, parse sample.print = .ok out ∧ out.skipped = [] ∧
    out.program.bare = sample.bare := by
  have wf : sample.wellFormed = true := by decide +kernel
  have fits : sample.cost ≤ maxDepth := by decide +kernel
  obtain ⟨out, read, back, _⟩ := parse_print sample wf
  exact ⟨out, read, back fits⟩

namespace Program

/-- The script of one expression. -/
def ofExpr (e : Expr) : Program := ⟨[.expression e default], default⟩

theorem ofExpr_wellFormed {e : Expr} (wf : e.wellFormed = true) : (ofExpr e).wellFormed = true := by
  simp [ofExpr, wellFormed, Stmt.allWellFormed, Stmt.wellFormed, wf]

theorem ofExpr_cost (e : Expr) : Stmt.bodyCost (ofExpr e).body = e.cost + 2 := by
  simp [ofExpr, Stmt.bodyCost, Stmt.cost]

end Program

/-- A name under some negations. -/
def negated : Nat → Expr
  | 0 => .name "x" false default
  | n + 1 => .unary .not (negated n) default

theorem negated_wellFormed (n : Nat) : (negated n).wellFormed = true := by
  induction n with
  | zero => rfl
  | succ n ih => rw [negated, Expr.wellFormed, ih]

theorem negated_cost (n : Nat) : (negated n).cost = n := by
  induction n with
  | zero => rfl
  | succ n ih =>
      have tight : 7 ≤ (negated n).level := by
        cases n with
        | zero => decide
        | succ n => exact Nat.le_refl 7
      rw [negated, Expr.cost, decide_eq_false (Nat.not_lt.mpr tight), ih]
      rfl

/-- The limit cannot be left out, and neither can the rule that a base class has a plain name: a
script that negates too often is not read back, and neither is one with an engine variable as base
class. -/
theorem parse_print_limits : ((Program.ofExpr (negated 127)).wellFormed = true ∧
      ¬∃ out, parse (Program.ofExpr (negated 127)).print = .ok out ∧ out.skipped = []) ∧
    isName "A_Base" = true ∧
      ¬∃ out, parse (Program.mk [.classDecl "B" default (some "A_Base") [] default] default).print =
      .ok out ∧ out.skipped = [] := by
  have wf := Program.ofExpr_wellFormed (negated_wellFormed 127)
  refine ⟨⟨wf, ?_⟩, by decide +kernel, ?_⟩
  · rintro ⟨out, read, none⟩
    have exceeds : maxDepth < Stmt.bodyCost (Program.ofExpr (negated 127)).body := by
      rw [Program.ofExpr_cost, negated_cost]
      decide
    obtain ⟨tokens, final, scanned, eof, spells, kinds⟩ := tokenize_print wf
    rw [parse, scanned] at read
    cases read
    rcases parseTokens_spelled wf spells eof kinds with ⟨fits, _⟩ | ⟨_, skipped⟩
    · exact absurd exceeds (Nat.not_lt.mpr fits)
    · exact skipped none
  · rintro ⟨out, read, none⟩
    have dropped : ((parse
        (Program.mk [.classDecl "B" default (some "A_Base") [] default] default).print).toOption.map
        fun out => decide (out.skipped = [])) = some false := by decide +kernel
    rw [read] at dropped
    simp [Except.toOption, none] at dropped

end ScriptLens
