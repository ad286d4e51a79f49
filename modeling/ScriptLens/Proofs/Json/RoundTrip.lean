import ScriptLens.Proofs.Json.Lexemes

/-!
Written JSON read back. Whatever the layout, the text of a value of texts, truth values and nulls
takes the reading machine from where a value may stand to behind this value, its stack unchanged.
Main statement: such a value is read back from its text on one line and over several.
-/

namespace ScriptLens.Json

/-- A value made of texts, truth values and nulls. -/
inductive Textual : Json → Prop
  | null : Textual .null
  | bool (b : Bool) : Textual (.bool b)
  | string (text : String) : Textual (.string text)
  | array {items : List Json} : (∀ j ∈ items, Textual j) → Textual (.array items)
  | object {fields : List (String × Json)} : (∀ f ∈ fields, Textual f.2) → Textual (.object fields)

/-- Where a value may stand. -/
def Await.takesValue (await : Await) : Prop := await = .value ∨ await = .valueOrClose

/-- Where the name of a field may stand. -/
def Await.takesKey (await : Await) : Prop := await = .key ∨ await = .keyOrClose

/-- The text is read as the value, wherever a value may stand. -/
def Spells (text : List Char) (j : Json) : Prop :=
  ∃ lexemes, Lexes text lexemes ∧ ∀ stack (await : Await), await.takesValue →
    lexemes.foldlM Machine.step ⟨stack, await⟩ = some ⟨stack, .after j⟩

/-- The text and a closing bracket are read as the rest of a list. -/
def SpellsItems (text : List Char) (items : List Json) : Prop :=
  ∃ lexemes, Lexes text lexemes ∧ ∀ done stack (await : Await), await.takesValue →
    (lexemes ++ [Lexeme.closing false]).foldlM Machine.step ⟨.items done :: stack, await⟩ =
      some ⟨stack, .after (.array (done.reverse ++ items))⟩

/-- The text and a closing brace are read as the rest of an object. -/
def SpellsFields (text : List Char) (fields : List (String × Json)) : Prop :=
  ∃ lexemes, Lexes text lexemes ∧ ∀ done stack (await : Await), await.takesKey →
    (lexemes ++ [Lexeme.closing true]).foldlM Machine.step ⟨.fields (some done) :: stack, await⟩ =
      some ⟨stack, .after (.object (done.reverse ++ fields))⟩

/-- A run over two stretches of lexemes, the first of which leads to a known machine. -/
theorem foldlM_step {first : List Lexeme} {m m' : Machine}
    (h : first.foldlM Machine.step m = some m') (rest : List Lexeme) :
    (first ++ rest).foldlM Machine.step m = rest.foldlM Machine.step m' := by
  rw [List.foldlM_append, h]
  rfl

theorem lexes_comma : Lexes [','] [.comma] := .single rfl fun _ => rfl

theorem lexes_colon : Lexes [':'] [.colon] := .single rfl fun _ => rfl

variable {text a b gap : List Char} {j : Json} {items : List Json} {fields : List (String × Json)}
  {name : String}

namespace Spells

theorem string (text : String) : Spells (quote text).toList (.string text) := by
  refine ⟨_, .text text, ?_⟩
  rintro stack _ (rfl | rfl) <;> rfl

theorem scalar (lexes : Lexes text [.scalar j]) : Spells text j := by
  refine ⟨_, lexes, ?_⟩
  rintro stack _ (rfl | rfl) <;> rfl

theorem blanks (h : Spells text j) (blank : ∀ c ∈ gap, isSpace c = true) :
    Spells (gap ++ text) j := by
  obtain ⟨lexemes, lexes, run⟩ := h
  exact ⟨lexemes, (Lexes.blanks blank).append lexes, run⟩

theorem emptyArray : Spells ['[', ']'] (.array []) := by
  have opening : Lexes ['['] [.opening false] := .single rfl fun _ => rfl
  have closing : Lexes [']'] [.closing false] := .single rfl fun _ => rfl
  refine ⟨_, opening.append closing, ?_⟩
  rintro stack _ (rfl | rfl) <;> rfl

theorem emptyObject : Spells ['{', '}'] (.object []) := by
  have opening : Lexes ['{'] [.opening true] := .single rfl fun _ => rfl
  have closing : Lexes ['}'] [.closing true] := .single rfl fun _ => rfl
  refine ⟨_, opening.append closing, ?_⟩
  rintro stack _ (rfl | rfl) <;> rfl

theorem array (h : SpellsItems text items) : Spells ('[' :: (text ++ [']'])) (.array items) := by
  obtain ⟨lexemes, lexes, run⟩ := h
  have opening : Lexes ['['] [.opening false] := .single rfl fun _ => rfl
  have closing : Lexes [']'] [.closing false] := .single rfl fun _ => rfl
  refine ⟨_, opening.append (lexes.append closing), ?_⟩
  intro stack await takes
  have opened : [Lexeme.opening false].foldlM Machine.step ⟨stack, await⟩ =
      some ⟨.items [] :: stack, .valueOrClose⟩ := by
    rcases takes with rfl | rfl <;> rfl
  rw [foldlM_step opened]
  exact run [] stack _ (.inr rfl)

theorem object (h : SpellsFields text fields) :
    Spells ('{' :: (text ++ ['}'])) (.object fields) := by
  obtain ⟨lexemes, lexes, run⟩ := h
  have opening : Lexes ['{'] [.opening true] := .single rfl fun _ => rfl
  have closing : Lexes ['}'] [.closing true] := .single rfl fun _ => rfl
  refine ⟨_, opening.append (lexes.append closing), ?_⟩
  intro stack await takes
  have opened : [Lexeme.opening true].foldlM Machine.step ⟨stack, await⟩ =
      some ⟨.fields (some []) :: stack, .keyOrClose⟩ := by
    rcases takes with rfl | rfl <;> rfl
  rw [foldlM_step opened]
  exact run [] stack _ (.inr rfl)

/-- The last item of a list. -/
theorem lastItem (h : Spells text j) : SpellsItems text [j] := by
  obtain ⟨lexemes, lexes, run⟩ := h
  refine ⟨lexemes, lexes, ?_⟩
  intro done stack await takes
  rw [foldlM_step (run _ _ takes), ← List.reverse_cons]
  rfl

/-- An item before others. -/
theorem item (h : Spells a j) (more : SpellsItems b items) :
    SpellsItems (a ++ ',' :: b) (j :: items) := by
  obtain ⟨lexemes, lexes, run⟩ := h
  obtain ⟨others, lexes', run'⟩ := more
  refine ⟨lexemes ++ ([Lexeme.comma] ++ others), lexes.append (lexes_comma.append lexes'), ?_⟩
  intro done stack await takes
  have comma : [Lexeme.comma].foldlM Machine.step ⟨.items done :: stack, .after j⟩ =
      some ⟨.items (j :: done) :: stack, .value⟩ := rfl
  rw [List.append_assoc, foldlM_step (run _ _ takes), List.append_assoc, foldlM_step comma,
    run' _ _ _ (.inl rfl)]
  simp

/-- The machine behind the name of a field and its colon. -/
theorem named (done : List (String × Json)) (stack : List Frame) {await : Await}
    (takes : await.takesKey) : [Lexeme.text (some name), Lexeme.colon].foldlM Machine.step
    ⟨.fields (some done) :: stack, await⟩ =
      some ⟨.member (some done) (some name) :: stack, .value⟩ := by
  rcases takes with rfl | rfl <;> rfl

/-- The last field of an object. -/
theorem lastField (key : Lexes a [.text (some name)]) (h : Spells b j) :
    SpellsFields (a ++ ':' :: b) [(name, j)] := by
  obtain ⟨lexemes, lexes, run⟩ := h
  refine ⟨[Lexeme.text (some name), Lexeme.colon] ++ lexemes,
    key.append (lexes_colon.append lexes), ?_⟩
  intro done stack await takes
  rw [List.append_assoc, foldlM_step (named _ _ takes), foldlM_step (run _ _ (.inl rfl)),
    ← List.reverse_cons]
  rfl

/-- A field before others. -/
theorem field {c : List Char} (key : Lexes a [.text (some name)]) (h : Spells b j)
    (more : SpellsFields c fields) :
    SpellsFields (a ++ ':' :: (b ++ ',' :: c)) ((name, j) :: fields) := by
  obtain ⟨lexemes, lexes, run⟩ := h
  obtain ⟨others, lexes', run'⟩ := more
  refine ⟨[Lexeme.text (some name), Lexeme.colon] ++ (lexemes ++ ([Lexeme.comma] ++ others)),
    key.append (lexes_colon.append (lexes.append (lexes_comma.append lexes'))), ?_⟩
  intro done stack await takes
  have comma :
      [Lexeme.comma].foldlM Machine.step ⟨.member (some done) (some name) :: stack, .after j⟩ =
      some ⟨.fields (some ((name, j) :: done)) :: stack, .key⟩ := rfl
  rw [List.append_assoc, foldlM_step (named _ _ takes), List.append_assoc,
    foldlM_step (run _ _ (.inl rfl)), List.append_assoc, foldlM_step comma, run' _ _ _ (.inl rfl)]
  simp

end Spells

/-- Items one by one, each written before the others with a comma. -/
theorem spellsItems_of_each (write : List Json → List Char) (one : Json → List Char)
    (last : ∀ j, write [j] = one j)
    (more : ∀ j k rest, write (j :: k :: rest) = one j ++ ',' :: write (k :: rest))
    (each : ∀ k ∈ j :: items, Spells (one k) k) :
    SpellsItems (write (j :: items)) (j :: items) := by
  induction items generalizing j with
  | nil =>
      rw [last]
      exact (each j List.mem_cons_self).lastItem
  | cons k rest ih =>
      rw [more]
      exact (each j List.mem_cons_self).item
        (ih fun k member => each k (List.mem_cons_of_mem j member))

/-- Fields one by one, each with its name and a colon, and a comma before the others. -/
theorem spellsFields_of_each (write : List (String × Json) → List Char) (key : String → List Char)
    (one : Json → List Char) (last : ∀ f : String × Json, write [f] = key f.1 ++ ':' :: one f.2)
    (more : ∀ (f g : String × Json) rest,
      write (f :: g :: rest) = key f.1 ++ ':' :: (one f.2 ++ ',' :: write (g :: rest)))
    (keys : ∀ name, Lexes (key name) [.text (some name)]) {f : String × Json}
    (each : ∀ g ∈ f :: fields, Spells (one g.2) g.2) :
    SpellsFields (write (f :: fields)) (f :: fields) := by
  induction fields generalizing f with
  | nil =>
      rw [last]
      exact Spells.lastField (keys f.1) (each f List.mem_cons_self)
  | cons g rest ih =>
      rw [more]
      exact Spells.field (keys f.1) (each f List.mem_cons_self)
        (ih fun g member => each g (List.mem_cons_of_mem f member))

theorem SpellsItems.blanks_behind (h : SpellsItems text items)
    (blank : ∀ c ∈ gap, isSpace c = true) : SpellsItems (text ++ gap) items := by
  obtain ⟨lexemes, lexes, run⟩ := h
  exact ⟨lexemes, by simpa using lexes.append (.blanks blank), run⟩

theorem SpellsFields.blanks_behind (h : SpellsFields text fields)
    (blank : ∀ c ∈ gap, isSpace c = true) : SpellsFields (text ++ gap) fields := by
  obtain ⟨lexemes, lexes, run⟩ := h
  exact ⟨lexemes, by simpa using lexes.append (.blanks blank), run⟩

/-- A text that spells a value is read as this value. -/
theorem scan?_of_spells {text : String} (h : Spells text.toList j) : scan? text = some j := by
  obtain ⟨lexemes, lexes, run⟩ := h
  rw [scan?, lexes.lexemes?_eq]
  change (lexemes.foldlM Machine.step ⟨[], .value⟩).bind _ = _
  rw [run _ _ (.inl rfl)]
  rfl

theorem spells_bool (b : Bool) : Spells (if b then "true" else "false").toList (.bool b) := by
  cases b
  · exact .scalar (.single rfl fun _ => rfl)
  · exact .scalar (.single rfl fun _ => rfl)

theorem spells_null : Spells "null".toList .null := .scalar (.single rfl fun _ => rfl)

theorem compact_spells (h : Textual j) : Spells (compact j).toList j := by
  induction h with
  | null => exact spells_null
  | bool b => exact spells_bool b
  | string text => exact .string text
  | @array items members ih =>
      cases items with
      | nil => exact .emptyArray
      | cons j rest =>
          have row : SpellsItems (compactItems (j :: rest)).toList (j :: rest) :=
            spellsItems_of_each (fun items => (compactItems items).toList)
              (fun j => (compact j).toList)
              (fun j => by simp [compactItems]) (fun j k rest => by simp [compactItems]) ih
          have text : (compact (.array (j :: rest))).toList =
              '[' :: ((compactItems (j :: rest)).toList ++ [']']) := by
            simp [compact]
          rw [text]
          exact .array row
  | @object fields members ih =>
      cases fields with
      | nil => exact .emptyObject
      | cons f rest =>
          have row : SpellsFields (compactFields (f :: rest)).toList (f :: rest) :=
            spellsFields_of_each (fun fields => (compactFields fields).toList) (fun name =>
              (quote name).toList) (fun j => (compact j).toList) (fun f => by simp [compactFields])
              (fun f g rest => by simp [compactFields]) Lexes.text ih
          have text : (compact (.object (f :: rest))).toList =
              '{' :: ((compactFields (f :: rest)).toList ++ ['}']) := by
            simp [compact]
          rw [text]
          exact .object row

theorem newline_blank (level : Nat) : ∀ c ∈ (newline level).toList, isSpace c = true := by
  intro c member
  simp only [newline, String.toList_append, String.toList_ofList, List.mem_append,
    List.mem_replicate] at member
  rcases member with feed | ⟨_, rfl⟩
  · rw [List.mem_singleton.mp feed]
    rfl
  · rfl

theorem space_blank : ∀ c ∈ [' '], isSpace c = true := by
  intro c member
  rw [List.mem_singleton.mp member]
  rfl

theorem pretty_spells (h : Textual j) (level : Nat) : Spells (prettyAt level j).toList j := by
  induction h generalizing level with
  | null => exact spells_null
  | bool b => exact spells_bool b
  | string text => exact .string text
  | @array items members ih =>
      cases items with
      | nil =>
          rw [prettyAt]
          exact .emptyArray
      | cons j rest =>
          have row : SpellsItems (prettyItems (level + 1) (j :: rest)).toList (j :: rest) :=
            spellsItems_of_each (fun items => (prettyItems (level + 1) items).toList)
              (fun j => (newline (level + 1)).toList ++ (prettyAt (level + 1) j).toList)
              (fun j => by simp [prettyItems]) (fun j k rest => by simp [prettyItems])
              fun k member => (ih k member (level + 1)).blanks (newline_blank _)
          have text : (prettyAt level (.array (j :: rest))).toList =
              '[' :: (((prettyItems (level + 1) (j :: rest)).toList ++ (newline level).toList) ++
              [']']) := by
            simp [prettyAt]
          rw [text]
          exact .array (row.blanks_behind (newline_blank level))
  | @object fields members ih =>
      cases fields with
      | nil =>
          rw [prettyAt]
          exact .emptyObject
      | cons f rest =>
          have row : SpellsFields (prettyFields (level + 1) (f :: rest)).toList (f :: rest) :=
            spellsFields_of_each (fun fields => (prettyFields (level + 1) fields).toList)
              (fun name => (newline (level + 1)).toList ++ (quote name).toList)
              (fun j => [' '] ++ (prettyAt (level + 1) j).toList)
              (fun f => by simp [prettyFields]) (fun f g rest => by simp [prettyFields])
              (fun name => (Lexes.blanks (newline_blank _)).append (.text name))
              fun g member => (ih g member (level + 1)).blanks space_blank
          have text : (prettyAt level (.object (f :: rest))).toList =
              '{' :: (((prettyFields (level + 1) (f :: rest)).toList ++ (newline level).toList) ++
              ['}']) := by
            simp [prettyAt]
          rw [text]
          exact .object (row.blanks_behind (newline_blank level))

/-- A value of texts, truth values and nulls is read back from its text on one line. -/
theorem scan?_compact (h : Textual j) : scan? (compact j) = some j :=
  scan?_of_spells (compact_spells h)

/-- It is also read back from its text over several lines. -/
theorem scan?_pretty (h : Textual j) : scan? (pretty j) = some j :=
  scan?_of_spells (pretty_spells h 0)

end ScriptLens.Json
