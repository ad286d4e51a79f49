import ScriptLens.Proofs.Print.Expressions

/-!
The grammar of expressions as a relation between tokens and trees, apart from any parser.
Parentheses leave no trace in the tree; around the commas of a call and next to its parentheses a
gap may stand, and which gaps may is left open.
-/

namespace ScriptLens

/-- The expression that a token is on its own. -/
def Token.leaf? (t : Token) : Option Expr :=
  match t.kind with
  | .kwTrue => some (Parser.literal t (.boolean true))
  | .kwFalse => some (Parser.literal t (.boolean false))
  | .kwNull => some (Parser.literal t .null)
  | .number => some (Parser.literal t (.number (.ofLiteral t.text.toList)))
  | .string => some (Parser.literal t (.string (Parser.stringValue t.text)))
  | .identifier => some (.name t.text false t.span)
  | .builtinVar => some (.name t.text true t.span)
  | _ => none

theorem Token.leaf?_newline {t : Token} {e : Expr} (leaf : t.leaf? = some e) :
    t.kind ≠ .newline := by
  intro newline
  rw [leaf?, newline] at leaf
  cases leaf

namespace Grammar

/-- Nothing but line breaks. -/
def LineBreaks (ts : List Token) : Prop := ∀ t ∈ ts, t.kind = .newline

/-- Tokens without their line breaks. -/
def joined (ts : List Token) : List Token := ts.filter (·.kind ≠ .newline)

/-- Arguments in a row: a comma behind each but the last, and gaps around the commas and at the
end. -/
inductive Row (gap : List Token → Prop) : List (List Token × Expr) → List Token → Prop where
  | last {item : List Token × Expr} {behind : List Token} (ends : gap behind) :
      Row gap [item] (item.1 ++ behind)
  | more {item : List Token × Expr} {items : List (List Token × Expr)}
      {before after ts : List Token} {comma : Token} (first : gap before)
      (kind : comma.kind = .comma) (second : gap after) (later : Row gap items ts) :
      Row gap (item :: items) (item.1 ++ (before ++ comma :: (after ++ ts)))

/-- What stands between the parentheses of a call. -/
inductive Inside (gap : List Token → Prop) : List (List Token × Expr) → List Token → Prop where
  | none {only : List Token} (blank : gap only) : Inside gap [] only
  | some {items : List (List Token × Expr)} {before ts : List Token} (first : gap before)
      (row : Row gap items ts) : Inside gap items (before ++ ts)

/-- Tokens that are an expression of a level. -/
inductive Derives (gap : List Token → Prop) : Nat → List Token → Expr → Prop where
  | assignment {target value : Expr} {ts us : List Token} {sign : Token}
      (left : Derives gap 1 ts target) (assignable : target.isTarget = true)
      (kind : sign.kind = .assign) (right : Derives gap 0 us value) :
      Derives gap 0 (ts ++ sign :: us) (.assignment target value (target.span.cover value.span))
  | binary {operator : BinaryOp} {left right : Expr} {ts us : List Token} {sign : Token}
      (first : Derives gap operator.level ts left) (kind : sign.kind = operator.kind)
      (second : Derives gap (operator.level + 1) us right) : Derives gap operator.level
      (ts ++ sign :: us) (.binary operator left right (left.span.cover right.span))
  | unary {operator : UnaryOp} {argument : Expr} {ts : List Token} {sign : Token}
      (kind : sign.kind = operator.kind) (operand : Derives gap 7 ts argument) :
      Derives gap 7 (sign :: ts) (.unary operator argument (sign.span.cover argument.span))
  | call {callee : Expr} {items : List (List Token × Expr)} {ts inside : List Token}
      {opening closing : Token} (before : Derives gap 8 ts callee)
      (opens : opening.kind = .lParen) (listed : Inside gap items inside)
      (arguments : ∀ item ∈ items, Derives gap 0 item.1 item.2) (closes : closing.kind = .rParen) :
      Derives gap 8 (ts ++ opening :: (inside ++ [closing]))
        (.call callee (items.map Prod.snd) (callee.span.cover closing.span))
  | member {object : Expr} {ts : List Token} {dot name : Token} (before : Derives gap 8 ts object)
      (kind : dot.kind = .dot) (named : name.kind = .identifier ∨ name.kind = .builtinVar) :
      Derives gap 8 (ts ++ [dot, name]) (.member object name.text (object.span.cover name.span))
  | leaf {t : Token} {e : Expr} (leaf : t.leaf? = some e) : Derives gap 9 [t] e
  | group {e : Expr} {ts : List Token} {opening closing : Token} (opens : opening.kind = .lParen)
      (inside : Derives gap 0 ts e) (closes : closing.kind = .rParen) :
      Derives gap 9 (opening :: (ts ++ [closing])) e
  | tighter {level : Nat} {e : Expr} {ts : List Token} (above : Derives gap (level + 1) ts e) :
      Derives gap level ts e

variable {gap gap' : List Token → Prop} {items : List (List Token × Expr)} {ts : List Token}
  {e : Expr} {level : Nat}

section Gaps

/-!
Where fewer gaps are allowed, less is an expression; and an expression stays one without its line
breaks.
-/

/-- A map of tokens that changes nothing but gaps. -/
structure Keeps (gap gap' : List Token → Prop) (f : List Token → List Token) : Prop where
  append : ∀ ts us, f (ts ++ us) = f ts ++ f us
  nil : f [] = []
  cons : ∀ (t : Token) (ts : List Token), t.kind ≠ .newline → f (t :: ts) = t :: f ts
  gaps : ∀ ts, gap ts → gap' (f ts)

variable {f : List Token → List Token}

theorem Row.map (keeps : Keeps gap gap' f) (h : Row gap items ts) :
    Row gap' (items.map fun item => (f item.1, item.2)) (f ts) := by
  induction h with
  | @last item behind ends =>
      rw [keeps.append]
      exact .last (keeps.gaps _ ends)
  | @more item items before after ts comma first kind second _ ih =>
      rw [keeps.append, keeps.append, keeps.cons _ _ (by rw [kind]; decide), keeps.append]
      exact .more (keeps.gaps _ first) kind (keeps.gaps _ second) ih

theorem Inside.map (keeps : Keeps gap gap' f) (h : Inside gap items ts) :
    Inside gap' (items.map fun item => (f item.1, item.2)) (f ts) := by
  cases h with
  | none blank => exact .none (keeps.gaps _ blank)
  | some first row =>
      rw [keeps.append]
      exact .some (keeps.gaps _ first) (row.map keeps)

theorem Derives.map (keeps : Keeps gap gap' f) (h : Derives gap level ts e) :
    Derives gap' level (f ts) e := by
  induction h with
  | assignment _ assignable kind _ ihl ihr =>
      rw [keeps.append, keeps.cons _ _ (by rw [kind]; decide)]
      exact .assignment ihl assignable kind ihr
  | @binary operator left right ts us sign _ kind _ ihl ihr =>
      rw [keeps.append, keeps.cons _ _ (by rw [kind]; cases operator <;> decide)]
      exact .binary ihl kind ihr
  | @unary operator argument ts sign kind _ ih =>
      rw [keeps.cons _ _ (by rw [kind]; cases operator <;> decide)]
      exact .unary kind ih
  | @call callee items ts inside opening closing _ opens listed _ closes ihc iha =>
      rw [keeps.append, keeps.cons _ _ (by rw [opens]; decide), keeps.append,
        keeps.cons _ _ (by rw [closes]; decide), keeps.nil]
      have arguments : ∀ item ∈ items.map fun item => (f item.1, item.2),
          Derives gap' 0 item.1 item.2 := by
        intro item member
        obtain ⟨item, inside, rfl⟩ := List.mem_map.mp member
        exact iha item inside
      have whole := Derives.call ihc opens (listed.map keeps) arguments closes
      rwa [List.map_map] at whole
  | @member object ts dot name _ kind named ih =>
      have other :
        name.kind ≠ .newline := by rcases named with named | named <;> rw [named] <;> decide
      rw [keeps.append, keeps.cons _ _ (by rw [kind]; decide), keeps.cons _ _ other, keeps.nil]
      exact .member ih kind named
  | leaf leaf =>
      rw [keeps.cons _ _ (Token.leaf?_newline leaf), keeps.nil]
      exact .leaf leaf
  | group opens _ closes ih =>
      rw [keeps.cons _ _ (by rw [opens]; decide), keeps.append,
        keeps.cons _ _ (by rw [closes]; decide), keeps.nil]
      exact .group opens ih closes
  | tighter _ ih => exact .tighter ih

/-- More gaps allow more. -/
theorem Derives.mono (h : Derives gap level ts e) (more : ∀ ts, gap ts → gap' ts) :
    Derives gap' level ts e :=
  h.map (f := id) ⟨fun _ _ => rfl, rfl, fun _ _ _ => rfl, more⟩

/-- Line breaks inside calls may be left out. -/
theorem Derives.joined (h : Derives LineBreaks level ts e) :
    Derives (· = []) level (joined ts) e := by
  refine h.map ⟨fun ts us => List.filter_append ts us, rfl, ?_, ?_⟩
  · intro t ts other
    exact List.filter_cons_of_pos (by simpa using other)
  · intro ts breaks
    exact List.filter_eq_nil_iff.mpr fun t member => by simpa using breaks t member

end Gaps

section Kinds

/-- An expression starts like one, and one of the two tightest levels like an operand of a sign. -/
theorem Derives.head (h : Derives gap level ts e) : ∃ t rest,
    ts = t :: rest ∧ startsExpr t.kind = true ∧ (8 ≤ level → startsOperand t.kind = true) := by
  induction h with
  | assignment _ _ _ _ ih =>
      obtain ⟨t, rest, rfl, starts, _⟩ := ih
      exact ⟨t, _, rfl, starts, fun high => absurd high (by decide)⟩
  | @binary operator _ _ _ _ _ _ _ _ ih =>
      obtain ⟨t, rest, rfl, starts, _⟩ := ih
      have low := operator.level_bounds.2
      exact ⟨t, _, rfl, starts, fun high => by omega⟩
  | @unary operator _ _ _ kind _ _ =>
      exact ⟨_, _, rfl, by rw [kind]; cases operator <;> decide,
        fun high => absurd high (by decide)⟩
  | call _ _ _ _ _ ih =>
      obtain ⟨t, rest, rfl, starts, tight⟩ := ih
      exact ⟨t, _, rfl, starts, tight⟩
  | member _ _ _ ih =>
      obtain ⟨t, rest, rfl, starts, tight⟩ := ih
      exact ⟨t, _, rfl, starts, tight⟩
  | @leaf t e leaf =>
      have operand : startsOperand t.kind = true := by
        rw [Token.leaf?] at leaf
        split at leaf
        case h_8 => cases leaf
        all_goals
          next kind =>
            rw [kind]
            rfl
      exact ⟨t, [], rfl, startsExpr_of_operand operand, fun _ => operand⟩
  | group opens _ _ _ => exact ⟨_, _, rfl, by rw [opens]; decide, fun _ => by rw [opens]; decide⟩
  | tighter _ ih =>
      obtain ⟨t, rest, rfl, starts, tight⟩ := ih
      exact ⟨t, rest, rfl, starts, fun high => tight (Nat.le_succ_of_le high)⟩

theorem Derives.ne_nil (h : Derives gap level ts e) : ts ≠ [] := by
  obtain ⟨t, rest, rfl, _⟩ := h.head
  exact List.cons_ne_nil t rest

theorem Derives.level_le (h : Derives gap level ts e) : level ≤ 9 := by
  induction h with
  | @binary operator => exact Nat.le_trans operator.level_bounds.2 (by decide)
  | tighter _ ih => exact Nat.le_of_succ_le ih
  | _ => decide

end Kinds

end Grammar

end ScriptLens
