import ScriptLens.Proofs.Scan.Quotes
import ScriptLens.Proofs.Scan.Tails

/-!
The colon pairs of a text, found by a reader of characters that knows nothing of lexemes. Outside
strings and comments no lexeme but `:=` and `::` holds a colon behind its first character, so a
scanner meets a pair exactly where this reader does.
-/

namespace ScriptLens

/-- The places of the colon pairs in a text that starts at `p`. In code the text is read from left
to right, at a colon `:=` if it stands there, else `::`, else the colon alone. -/
def colonPairs : Region → Position → List Char → List Position
  | _, _, [] => []
  | .code, p, ':' :: '=' :: rest => colonPairs .code (p.after [':', '=']) rest
  | .code, p, ':' :: ':' :: rest => p :: colonPairs .code (p.after [':', ':']) rest
  | r, p, c :: rest => colonPairs (r.next c) (p.next c) rest

/-- The colon pairs of a script. -/
def pairsOf (source : String) : List Position := colonPairs .code .start source.toList

theorem colonPairs_next {r : Region} {c : Char} (h : r = .code → c ≠ ':') (p : Position)
    (rest : List Char) : colonPairs r p (c :: rest) = colonPairs (r.next c) (p.next c) rest := by
  rw [colonPairs]
  · rintro rest' rfl rfl
    exact absurd rfl (h rfl)
  · rintro rest' rfl rfl
    exact absurd rfl (h rfl)

theorem colonPairs_colon {rest : List Char} (assign : ∀ more, rest ≠ '=' :: more)
    (pair : ∀ more, rest ≠ ':' :: more)
    (p : Position) : colonPairs .code p (':' :: rest) = colonPairs .code (p.next ':') rest := by
  rw [colonPairs]
  · rfl
  · exact fun more _ _ => assign more
  · exact fun more _ _ => pair more

/-- A text without a colon has no pair. -/
theorem colonPairs_free {text : List Char} (free : ':' ∉ text) (r : Region) (p : Position)
    (rest : List Char) :
    colonPairs r p (text ++ rest) = colonPairs (r.after text) (p.after text) rest := by
  induction text generalizing r p with
  | nil => rfl
  | cons c text ih =>
      rw [List.mem_cons, not_or] at free
      rw [List.cons_append, colonPairs_next fun _ => Ne.symm free.1, ih free.2]
      rfl

/-- No pair stands inside a string or a comment. -/
theorem colonPairs_stay {r : Region} (outside : r ≠ .code) {text : List Char}
    (stays : ∀ c ∈ text, r.next c = r) (p : Position)
    (rest : List Char) : colonPairs r p (text ++ rest) = colonPairs r (p.after text) rest := by
  induction text generalizing p with
  | nil => rfl
  | cons c text ih =>
      rw [List.cons_append, colonPairs_next fun code => absurd code outside,
        stays c List.mem_cons_self, ih fun d member => stays d (List.mem_cons_of_mem c member)]
      rfl

/-- Up to the end of its line a comment makes no difference. -/
theorem colonPairs_comment {rest : List Char} (line : ∀ d ∈ rest.head?, d = '\n') (p : Position) :
    colonPairs .comment p rest = colonPairs .code p rest := by
  cases rest with
  | nil => rw [colonPairs, colonPairs]
  | cons d rest =>
      rw [line d rfl, colonPairs_next (by decide), colonPairs_next (by decide)]
      rfl

theorem colonPairs_string {text : List Char} (free : '"' ∉ text) (p : Position) (rest : List Char) :
    colonPairs .string p (text ++ rest) = colonPairs .string (p.after text) rest := by
  refine colonPairs_stay (by decide) (fun c member => ?_) p rest
  have other : c ≠ '"' := fun same => free (same ▸ member)
  exact if_neg other

/-- A quote that stays open hides what stands behind it. -/
theorem colonPairs_open {behind : List Char} (free : '"' ∉ behind) (p : Position) :
    colonPairs .code p ('"' :: behind) = [] := by
  have inside := colonPairs_string free (p.next '"') []
  rw [List.append_nil] at inside
  rw [colonPairs_next (by decide)]
  exact inside.trans (by rw [colonPairs])

namespace Lexeme

/-- Only a lexeme that starts with a colon, strings and comments hold one. -/
theorem read_colon_free {c : Char} (comment : c ≠ ';') (quote : c ≠ '"') (colon : c ≠ ':')
    (rest : List Char) : ':' ∉ (read c rest).text := by
  -- up to the first colon of the text the lexeme is read alone
  have prefix_free : ∀ {front : List Char}, ':' ∉ front → ':' ∉ (read c front).text := by
    intro front free inside
    have whole := List.mem_append_left (read c front).rest inside
    rw [read_append] at whole
    rcases List.mem_cons.mp whole with first | later
    · exact colon first.symm
    · exact free later
  by_cases inside : ':' ∈ rest
  · obtain ⟨front, more, rfl, free⟩ := List.eq_append_cons_of_mem inside
    have closed : (read c front).shape ≠ .unclosed := fun unclosed => quote (read_unclosed unclosed)
    rw [read_stop rfl comment (fun same => absurd same colon) closed]
    exact prefix_free free
  · exact prefix_free inside

theorem read_colon_assign (rest : List Char) :
    read ':' ('=' :: rest) = ⟨.token .assign, [':', '='], rest⟩ :=
  rfl

theorem read_colon_pair (rest : List Char) :
    read ':' (':' :: rest) = ⟨.colonPair, [':', ':'], rest⟩ :=
  rfl

theorem read_colon {rest : List Char} (assign : ∀ more, rest ≠ '=' :: more)
    (pair : ∀ more, rest ≠ ':' :: more) : read ':' rest = ⟨.token .colon, [':'], rest⟩ := by
  change readSymbol ':' rest = _
  rw [readSymbol]
  · exact assign
  · exact pair

end Lexeme

/-- The pairs of a text are the one its first lexeme may be and those behind that lexeme. -/
theorem colonPairs_lexeme {c : Char} {rest : List Char}
    (closed : (Lexeme.read c rest).shape ≠ .unclosed) (p : Position) :
    colonPairs .code p (c :: rest) =
    (if (Lexeme.read c rest).shape = .colonPair then [p] else []) ++
      colonPairs .code (p.after (Lexeme.read c rest).text) (Lexeme.read c rest).rest := by
  by_cases comment : c = ';'
  · subst comment
    obtain ⟨shape, free, line⟩ := Lexeme.read_comment rest
    obtain ⟨tail, text⟩ := Lexeme.read_head ';' rest
    have whole := Lexeme.read_append ';' rest
    rw [text] at free
    rw [text, List.cons_append] at whole
    rw [shape, if_neg (by simp), List.nil_append, text, ← colonPairs_comment line, ← whole,
      colonPairs_next (by decide)]
    refine colonPairs_stay (by decide) (fun d member => ?_) _ _
    have other : d ≠ '\n' := fun same => free (same ▸ List.mem_cons_of_mem ';' member)
    exact if_neg other
  by_cases quote : c = '"'
  · subst quote
    obtain ⟨shape, inner, text, free⟩ := Lexeme.read_quote closed
    have whole := Lexeme.read_append '"' rest
    rw [text, List.cons_append, List.append_assoc] at whole
    rw [shape, if_neg (by simp), List.nil_append, text, ← whole, colonPairs_next (by decide)]
    refine (colonPairs_string free _ _).trans ?_
    rw [List.singleton_append, colonPairs_next (by decide), Position.after_cons,
      Position.after_append]
    rfl
  by_cases colon : c = ':'
  · subst colon
    by_cases assign : ∃ more, rest = '=' :: more
    · obtain ⟨more, rfl⟩ := assign
      rw [Lexeme.read_colon_assign, colonPairs]
      rfl
    by_cases pair : ∃ more, rest = ':' :: more
    · obtain ⟨more, rfl⟩ := pair
      rw [Lexeme.read_colon_pair, colonPairs]
      rfl
    rw [not_exists] at assign pair
    rw [Lexeme.read_colon assign pair, colonPairs_colon assign pair]
    rfl
  · have free := Lexeme.read_colon_free comment quote colon rest
    have other : (Lexeme.read c rest).shape ≠ .colonPair := by
      intro shape
      rcases Lexeme.read_cases c rest with ⟨blank, _⟩ | ⟨k, token, _⟩ | ⟨_, two⟩ | ⟨unclosed, _⟩
      · exact absurd (shape.symm.trans blank) (by decide)
      · exact absurd (shape.symm.trans token) (by simp)
      · exact free (by simp [two])
      · exact closed unclosed
    have whole := colonPairs_free free .code p (Lexeme.read c rest).rest
    rw [Lexeme.read_append] at whole
    rw [if_neg other, List.nil_append, whole]
    rcases Lexeme.read_region closed with code | ⟨inComment, line⟩
    · rw [code]
    · rw [inComment, colonPairs_comment line]

end ScriptLens
