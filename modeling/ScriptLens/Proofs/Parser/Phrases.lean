import ScriptLens.Proofs.Grammar.Sound
import Mathlib.Data.List.Basic

/-!
The tokens of an expression: parentheses match in them, they hold no brace, and the last of them is
no dot. The same is true of the tokens of an item between commas, so a list in parentheses can be
walked through from either end.
-/

namespace ScriptLens

open ParseM ScriptLens.Parser Grammar

/-- Tokens in which parentheses match, without braces. -/
inductive Matched : List Token → Prop
  | nil : Matched []
  | plain {t} : t.kind ∉ [.lParen, .rParen, .lBrace, .rBrace] → Matched [t]
  | group {opening closing inside} : opening.kind = .lParen → closing.kind = .rParen →
      Matched inside → Matched (opening :: (inside ++ [closing]))
  | append {before behind} : Matched before → Matched behind → Matched (before ++ behind)

/-- The tokens of an expression. -/
structure Phrase (ts : List Token) : Prop where
  matched : Matched ts
  ends : ∃ front last, ts = front ++ [last] ∧ last.kind ≠ .dot

theorem Matched.all {ts : List Token}
    (h : ∀ t ∈ ts, t.kind ∉ [.lParen, .rParen, .lBrace, .rBrace]) : Matched ts := by
  induction ts with
  | nil => exact .nil
  | cons t ts ih =>
      exact .append (.plain (h t List.mem_cons_self))
        (ih fun u member => h u (List.mem_cons_of_mem t member))

namespace Phrase

variable {ts us : List Token} {t opening closing : Token}

theorem token (plain : t.kind ∉ [.lParen, .rParen, .lBrace, .rBrace])
    (other : t.kind ≠ .dot) : Phrase [t] :=
  ⟨.plain plain, [], t, rfl, other⟩

theorem behind (h : Phrase us) (before : Matched ts) : Phrase (ts ++ us) := by
  obtain ⟨front, last, rfl, other⟩ := h.ends
  exact ⟨before.append h.matched, ts ++ front, last, (List.append_assoc _ _ _).symm, other⟩

theorem group (opens : opening.kind = .lParen) (closes : closing.kind = .rParen)
    (inside : Matched ts) : Phrase (opening :: (ts ++ [closing])) :=
  ⟨.group opens closes inside, opening :: ts, closing, rfl, by rw [closes]; decide⟩

end Phrase

/-- Commas and line breaks. -/
def Kind.separates (k : Kind) : Bool := k ∈ [newline, comma]

/-- An item of a list in parentheses: a separator or nothing stands before it, a separator or the
end of the list behind. -/
def Among (good : List Token → Prop) (ts : List Token) : Prop :=
  ∃ front item next back, ts = front ++ (item ++ next :: back) ∧ good item ∧ Matched front ∧
    (∀ t ∈ front.getLast?, t.kind.separates = true) ∧
    (next.kind.separates = true ∨ next.kind = .rParen)

theorem Among.before {good : List Token → Prop} {ts : List Token} (h : Among good ts)
    (us : List Token) : Among good (ts ++ us) := by
  obtain ⟨front, item, next, back, rfl, rest⟩ := h
  exact ⟨front, item, next, back ++ us, by simp, rest⟩

theorem Matched.separators {ts : List Token} (h : ∀ t ∈ ts, t.kind.separates = true) :
    Matched ts := by
  apply Matched.all
  intro t member
  have kind := h t member
  revert kind
  generalize t.kind = kind
  cases kind <;> decide

section Derivations

variable {items : List (List Token × Expr)} {ts : List Token} {e : Expr} {level : Nat}

theorem Grammar.LineBreaks.matched (h : LineBreaks ts) : Matched ts :=
  .separators fun t member => by rw [h t member]; rfl

theorem Grammar.Row.matched (h : Row LineBreaks items ts) (each : ∀ item ∈ items, Matched item.1) :
    Matched ts := by
  induction h with
  | last ends => exact .append (each _ List.mem_cons_self) (LineBreaks.matched ends)
  | @more item items before after ts comma first kind second _ ih =>
      have sign : Matched [comma] := .plain (by rw [kind]; decide)
      have later : Matched ts := ih fun item member => each item (List.mem_cons_of_mem _ member)
      have behind :=
        (LineBreaks.matched first).append (sign.append ((LineBreaks.matched second).append later))
      exact (each item List.mem_cons_self).append behind

theorem Grammar.Inside.matched (h : Inside LineBreaks items ts)
    (each : ∀ item ∈ items, Matched item.1) : Matched ts := by
  cases h with
  | none blank => exact LineBreaks.matched blank
  | some first row => exact (LineBreaks.matched first).append (row.matched each)

/-- The tokens of a tree are those of an expression. -/
theorem Grammar.Derives.phrase (h : Derives LineBreaks level ts e) : Phrase ts := by
  induction h with
  | @assignment _ _ ts us sign _ _ kind _ ihl ihr =>
      have plain : Matched [sign] := .plain (by rw [kind]; decide)
      exact (ihr.behind plain).behind ihl.matched
  | @binary operator _ _ ts us sign _ kind _ ihl ihr =>
      have plain : Matched [sign] := .plain (by rw [kind]; cases operator <;> decide)
      exact (ihr.behind plain).behind ihl.matched
  | @unary operator _ ts sign kind _ ih =>
      have plain : Matched [sign] := .plain (by rw [kind]; cases operator <;> decide)
      exact ih.behind plain
  | call _ opens listed _ closes ihc iha =>
      exact (Phrase.group opens closes
        (listed.matched fun item member => (iha item member).matched)).behind ihc.matched
  | @member _ ts dot name _ kind named ih =>
      have access : Matched [dot] := .plain (by rw [kind]; decide)
      have last : Phrase [name] := by
        apply Phrase.token <;> rcases named with named | named <;> rw [named] <;> decide
      exact (last.behind access).behind ih.matched
  | @leaf t e leaf =>
      have kind : t.kind ∉ [.lParen, .rParen, .lBrace, .rBrace] ∧ t.kind ≠ .dot := by
        rw [Token.leaf?] at leaf
        split at leaf
        case h_8 => cases leaf
        all_goals
          next kind =>
            rw [kind]
            decide
      exact .token kind.1 kind.2
  | group opens _ closes ih => exact .group opens closes ih.matched
  | tighter _ ih => exact ih

end Derivations

namespace Parser

/-- The rule reads the tokens of an expression. -/
abbrev Phrases (m : ParseM Expr) : Prop := ∀ s : State, s.Closed → Takes s m fun _ ts _ => Phrase ts

variable {s : State} {inner : Level}

theorem Phrases.nested {m : ParseM Expr} (h : Phrases m) : Phrases (nested m) :=
  fun _ closed => Takes.nested (h _ closed) fun _ _ _ _ => id

theorem Derived.phrases {m : ParseM Expr} {level : Nat} (h : Derived level m) : Phrases m :=
  fun s closed => (h s closed).weaken fun _ _ _ _ derives => derives.phrase

section Lists

variable {α : Type} {item : ParseM α} {good : α → List Token → Prop}

/-- Items with separators behind each, so that another one may follow. -/
structure Open (good : α → List Token → Prop) (items : List α) (ts : List Token) : Prop where
  matched : Matched ts
  separate : ∀ t ∈ ts.getLast?, t.kind.separates = true
  items : ∀ a ∈ items, Among (good a) ts

/-- Items up to the parenthesis that closes their list. -/
structure Closing (good : α → List Token → Prop) (items : List α) (ts : List Token) : Prop where
  matched : Matched ts
  items : ∀ closing : Token, closing.kind = .rParen → ∀ a ∈ items, Among (good a) (ts ++ [closing])

theorem Open.closing {items : List α} {ts : List Token} (h : Open good items ts) :
    Closing good items ts :=
  ⟨h.matched, fun closing _ a member => (h.items a member).before [closing]⟩

/-- One item more and the separators behind it; where there are some, yet another one may follow. -/
theorem Open.push {items : List α} {ts us vs : List Token} {a : α} (h : Open good items ts)
    (holds : good a us) (matched : Matched us) (separators : ∀ t ∈ vs, t.kind.separates = true) :
    Closing good (a :: items) (ts ++ (us ++ vs)) ∧
    (vs ≠ [] → Open good (a :: items) (ts ++ (us ++ vs))) := by
  have whole : Matched (ts ++ (us ++ vs)) :=
    h.matched.append (matched.append (.separators separators))
  cases vs with
  | nil =>
      refine ⟨⟨whole, ?_⟩, fun some => absurd rfl some⟩
      intro closing closes b member
      rcases List.mem_cons.mp member with rfl | older
      · exact ⟨ts, us, closing, [], by simp, holds, h.matched, h.separate, .inr closes⟩
      · rw [List.append_assoc]
        exact (h.items b older).before _
  | cons next vs =>
      have next' := separators next List.mem_cons_self
      have complete : Open good (a :: items) (ts ++ (us ++ next :: vs)) := by
        refine ⟨whole, ?_, ?_⟩
        · intro t member
          rw [← List.append_assoc,
            List.getLast?_append_of_ne_nil _ (List.cons_ne_nil next vs)] at member
          exact separators t (List.mem_of_getLast? member)
        · intro b member
          rcases List.mem_cons.mp member with rfl | older
          · exact ⟨ts, us, next, vs, rfl, holds, h.matched, h.separate, .inl next'⟩
          · exact (h.items b older).before _
      exact ⟨complete.closing, fun _ => complete⟩

theorem itemLink_open
    (h : ∀ s : State, s.Closed → Takes s item fun a ts _ => good a ts ∧ Matched ts)
    (closed : s.Closed) {items : List α} {ts : List Token} (before : Open good items ts) :
    Takes s (itemLink item items) fun next us _ =>
      Closing good next.1 (ts ++ us) ∧ (next.2 = true → Open good next.1 (ts ++ us)) := by
  have separator : ∀ {k : Kind}, k = .newline → k.separates = true := by
    rintro _ rfl
    rfl
  refine (h s closed).bind ?_
  rintro a us t taken ⟨holds, matched⟩
  have closed' := taken.closed closed
  refine takes_skipNewlines.bind ?_
  intro _ vs u taken' newlines
  have closed'' := taken'.closed closed'
  refine (takes_eat closed'' (by decide)).bind ?_
  rintro comma _ v _ (⟨rfl, rfl, kind⟩ | ⟨rfl, rfl, rfl, _⟩)
  · refine takes_skipNewlines.bind ?_
    intro _ ws w _ newlines'
    have separators : ∀ t ∈ vs ++ u.peek :: ws, t.kind.separates = true := by
      intro t member
      rcases List.mem_append.mp member with inside | later
      · exact separator (newlines t inside)
      · rcases List.mem_cons.mp later with rfl | last
        · rw [kind]
          rfl
        · exact separator (newlines' t last)
    obtain ⟨ends, goes⟩ := before.push holds matched separators
    exact takes_pure (by simpa using ⟨ends, goes (by simp)⟩)
  · obtain ⟨ends, _⟩ := before.push holds matched fun t member => separator (newlines t member)
    exact takes_pure (by simpa using ends)

theorem inParens_among (h : ∀ s : State, s.Closed → Takes s item fun a ts _ => good a ts ∧
      Matched ts) (closed : s.Closed) (what : Expected) :
    Takes s (inParens item what) fun items us _ => ∃ ts closing, us = ts ++ [closing] ∧
      closing.kind = .rParen ∧ Matched ts ∧ ∀ a ∈ items, Among (good a) us := by
  refine takes_skipNewlines.bind ?_
  intro _ ns t taken newlines
  have closed' := taken.closed closed
  have before : Open good [] ns := by
    have separators : ∀ t ∈ ns, t.kind.separates = true :=
      fun t member => by rw [newlines t member]; rfl
    exact ⟨.separators separators, fun t last => separators t (List.mem_of_getLast? last), by simp⟩
  have close {u : State} {items : List α} {ts : List Token}
      (closed : u.Closed) (listed : Closing good items ts) :
      Takes u (expect .rParen what >>= fun _ => pure items.reverse) fun items us _ => ∃ vs closing,
        ts ++ us = vs ++ [closing] ∧ closing.kind = .rParen ∧ Matched vs ∧ ∀ a ∈ items,
        Among (good a) (ts ++ us) := by
    refine (takes_expect closed (by decide) what).bind ?_
    rintro closing _ _ _ ⟨_, rfl, closes⟩
    refine takes_pure ⟨ts, closing, rfl, closes, listed.matched, ?_⟩
    intro a member
    exact listed.items closing closes a (List.mem_reverse.mp member)
  refine (takes_check .rParen).bind ?_
  rintro found _ _ _ ⟨rfl, rfl, _⟩
  split
  · exact close closed' before.closing
  · refine Takes.bind (Q := fun items us _ => Closing good items (ns ++ us)) ?_ ?_
    · refine takes_repeating
        (P := fun items us _ => Open good items (ns ++ us)) (by simpa using before) ?_
      intro items us u taken' listed
      simpa using itemLink_open h (taken'.closed closed') listed
    · intro items us u taken' listed
      simpa using close (taken'.closed closed') listed

end Lists

end Parser

/-- The rules for expressions read the tokens of expressions. -/
structure Level.Phrases (inner : Level) : Prop where
  assignment : Parser.Phrases inner.assignment
  disjunction : Parser.Phrases inner.disjunction

namespace Parser

theorem expression_phrases {inner : Level} (h : inner.Phrases) : Phrases (expression inner) :=
  h.assignment.nested

theorem tower_phrases (levels : Nat) : (tower levels).Phrases := by
  have derived := tower_sound levels
  exact ⟨derived.assignment.phrases, derived.disjunction.phrases⟩

end Parser

end ScriptLens
