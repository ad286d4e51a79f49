import ScriptLens.Documentation.Codec
import ScriptLens.Proofs.Json.RoundTrip

/-!
The documentation index written and read back. A record is read by the names of its fields, each of
which is written at most once, so what is written for each field is what is read for it; a field
that is left out, or holds `null`, is read as the absence for which it was written. Main statement:
an index is read back from its JSON value and from both of its texts.
-/

namespace ScriptLens

namespace Json

/-- The fields of a record that are there, in order. -/
def present (values : List (String × Option Json)) : List (String × Json) :=
  values.filterMap fun v => v.2.map fun j => (v.1, j)

theorem filter_present {values : List (String × Option Json)} {name : String}
    (missing : name ∉ values.map (·.1)) : (present values).filter (·.1 == name) = [] := by
  rw [List.filter_eq_nil_iff]
  intro f member same
  obtain ⟨v, inside, written⟩ := List.mem_filterMap.mp member
  obtain ⟨j, _, rfl⟩ := Option.map_eq_some_iff.mp written
  exact missing (List.mem_map.mpr ⟨v, inside, beq_iff_eq.mp same⟩)

/-- Each field of a record is found under its name. -/
theorem only?_present {values : List (String × Option Json)} (distinct : (values.map (·.1)).Nodup)
    {v : String × Option Json} (member : v ∈ values) : only? (present values) v.1 = some v.2 := by
  have found : (present values).filter (·.1 == v.1) = (v.2.map fun j => (v.1, j)).toList := by
    induction values with
    | nil => cases member
    | cons w rest ih =>
        obtain ⟨other, distinct⟩ := List.nodup_cons.mp distinct
        have split : present (w :: rest) = (w.2.map fun j => (w.1, j)).toList ++ present rest := by
          rw [present, List.filterMap_cons]
          cases w.2 <;> rfl
        rw [split, List.filter_append]
        rcases List.mem_cons.mp member with rfl | later
        · rw [filter_present other, List.append_nil]
          cases v.2 <;> simp
        · have apart : w.1 ≠ v.1 := fun same => other (List.mem_map.mpr ⟨v, later, same.symm⟩)
          rw [ih distinct later]
          cases w.2 <;> simp [apart]
  rw [only?, found]
  cases v.2 <;> rfl

theorem mapM_eq_some {α β : Type} {f : α → Option β} {g : α → β} {items : List α}
    (each : ∀ a ∈ items, f a = some (g a)) : items.mapM f = some (items.map g) := by
  induction items with
  | nil => rfl
  | cons a rest ih =>
      rw [List.mapM_cons, each a List.mem_cons_self,
        ih fun b member => each b (List.mem_cons_of_mem a member)]
      rfl

/-- What is written for any value can be read, and gives the value back. -/
structure Codec {α : Type} (encode : α → Json) (decode : Json → Option α) : Prop where
  textual : ∀ a, Textual (encode a)
  read : ∀ a, decode (encode a) = some a

theorem Codec.list {α : Type} {encode : α → Json} {decode : Json → Option α}
    (codec : Codec encode decode) : Codec (ofList encode) (list? decode) := by
  refine ⟨fun items => .array ?_, fun items => ?_⟩
  · intro j member
    obtain ⟨a, _, rfl⟩ := List.mem_map.mp member
    exact codec.textual a
  · have each : items.mapM (decode ∘ encode) = some (items.map id) :=
      mapM_eq_some fun a _ => codec.read a
    rw [ofList, list?, List.mapM_map, each, List.map_id]

theorem Codec.text : Codec Json.string text? := ⟨.string, fun _ => rfl⟩

theorem Codec.flag : Codec Json.bool bool? := ⟨.bool, fun _ => rfl⟩

/-- A text or `null`. -/
theorem Codec.nullable : Codec (ofOption Json.string) (nullable? text?) := by
  constructor
  · rintro (_ | text)
    · exact .null
    · exact .string text
  · rintro (_ | text) <;> rfl

/-- A text that is left out where there is none, and may be `null`. -/
theorem orElse?_omitted (text : Option String) :
    orElse? none (nullable? text?) (text.map Json.string) = some text := by
  cases text <;> rfl

theorem Codec.orElse {α : Type} {encode : α → Json} {decode : Json → Option α}
    (codec : Codec encode decode)
    (default a : α) : orElse? default decode (some (encode a)) = some a :=
  codec.read a

/-- Values are read and written field by field. -/
structure Written (j : Json) (values : List (String × Option Json)) : Prop where
  fields : j = .object (present values)
  textual : ∀ v ∈ values, ∀ k ∈ v.2, Textual k

theorem Written.record {j : Json} {values : List (String × Option Json)} (h : Written j values) :
    Textual j := by
  rw [h.fields]
  refine .object fun f member => ?_
  obtain ⟨v, inside, written⟩ := List.mem_filterMap.mp member
  obtain ⟨k, held, rfl⟩ := Option.map_eq_some_iff.mp written
  exact h.textual v inside k held

/-- The fields of a record are read as they were written. -/
theorem Written.read {j : Json} {values : List (String × Option Json)} (h : Written j values)
    (distinct : (values.map (·.1)).Nodup) :
    record? (values.map (·.1)) j = some (values.map (·.2)) := by
  rw [h.fields, record?, List.mapM_map]
  exact mapM_eq_some fun v member => only?_present distinct member

end Json

open Json

theorem ParameterDoc.written (p : ParameterDoc) : Written p.toJson
    [("Name", some (.string p.name)), ("Description", some (.string p.description)),
      ("Type", p.type.map .string), ("Optional", some (.bool p.optional))] := by
  constructor
  · rw [toJson]
    cases p.type <;> rfl
  · simp [Textual.string, Textual.bool]

theorem ParameterDoc.codec : Codec toJson ofJson? := by
  refine ⟨fun p => p.written.record, fun p => ?_⟩
  have fields := p.written.read (by simp)
  simp only [List.map_cons, List.map_nil] at fields
  simp [ofJson?, fields, required?, Codec.text.read, Codec.text.orElse, orElse?_omitted,
    Codec.flag.orElse]

theorem ExampleDoc.written (e : ExampleDoc) : Written e.toJson
    [("Description", some (.string e.description)), ("Code", some (.string e.code))] :=
  ⟨rfl, by simp [Textual.string]⟩

theorem ExampleDoc.codec : Codec toJson ofJson? := by
  refine ⟨fun e => e.written.record, fun e => ?_⟩
  have fields := e.written.read (by simp)
  simp only [List.map_cons, List.map_nil] at fields
  simp [ofJson?, fields, required?, Codec.text.read, Codec.text.orElse]

theorem FunctionDoc.written (f : FunctionDoc) : Written f.toJson
    [("Name", some (.string f.name)), ("Path", some (.string f.path)),
      ("Category", some (.string f.category)), ("Description", some (.string f.description)),
      ("Parameters", some (.ofList ParameterDoc.toJson f.parameters)),
      ("ReturnType", some (.ofOption .string f.returnType)),
      ("Examples", some (.ofList ExampleDoc.toJson f.examples))] :=
  ⟨rfl, by simp [Textual.string, (Codec.list ParameterDoc.codec).textual, Codec.nullable.textual,
    (Codec.list ExampleDoc.codec).textual]⟩

theorem FunctionDoc.codec : Codec toJson ofJson? := by
  refine ⟨fun f => f.written.record, fun f => ?_⟩
  have fields := f.written.read (by simp)
  simp only [List.map_cons, List.map_nil] at fields
  simp [ofJson?, fields, Codec.text.orElse, (Codec.list ParameterDoc.codec).orElse,
    Codec.nullable.orElse, (Codec.list ExampleDoc.codec).orElse]

theorem PropertyDoc.written (p : PropertyDoc) : Written p.toJson
    [("Name", some (.string p.name)), ("Description", some (.string p.description)),
      ("Type", some (.ofOption .string p.type))] :=
  ⟨rfl, by simp [Textual.string, Codec.nullable.textual]⟩

theorem PropertyDoc.codec : Codec toJson ofJson? := by
  refine ⟨fun p => p.written.record, fun p => ?_⟩
  have fields := p.written.read (by simp)
  simp only [List.map_cons, List.map_nil] at fields
  simp [ofJson?, fields, Codec.text.orElse, Codec.nullable.orElse]

theorem ClassDoc.written (c : ClassDoc) : Written c.toJson
    [("Name", some (.string c.name)), ("Category", some (.string c.category)), ("Description",
        some (.string c.description)), ("Methods", some (.ofList FunctionDoc.toJson c.methods)),
      ("Properties", some (.ofList PropertyDoc.toJson c.properties))] :=
  ⟨rfl, by simp [Textual.string, (Codec.list FunctionDoc.codec).textual,
    (Codec.list PropertyDoc.codec).textual]⟩

theorem ClassDoc.codec : Codec toJson ofJson? := by
  refine ⟨fun c => c.written.record, fun c => ?_⟩
  have fields := c.written.read (by simp)
  simp only [List.map_cons, List.map_nil] at fields
  simp [ofJson?, fields, Codec.text.orElse, (Codec.list FunctionDoc.codec).orElse,
    (Codec.list PropertyDoc.codec).orElse]

theorem VariableDoc.written (v : VariableDoc) : Written v.toJson
    [("Name", some (.string v.name)), ("Category", some (.string v.category)),
      ("Description", some (.string v.description)), ("Type", some (.string v.type))] :=
  ⟨rfl, by simp [Textual.string]⟩

theorem VariableDoc.codec : Codec toJson ofJson? := by
  refine ⟨fun v => v.written.record, fun v => ?_⟩
  have fields := v.written.read (by simp)
  simp only [List.map_cons, List.map_nil] at fields
  simp [ofJson?, fields, Codec.text.orElse]

theorem DirectiveDoc.written (d : DirectiveDoc) : Written d.toJson
    [("Name", some (.string d.name)), ("Category", some (.string d.category)),
      ("Description", some (.string d.description))] :=
  ⟨rfl, by simp [Textual.string]⟩

theorem DirectiveDoc.codec : Codec toJson ofJson? := by
  refine ⟨fun d => d.written.record, fun d => ?_⟩
  have fields := d.written.read (by simp)
  simp only [List.map_cons, List.map_nil] at fields
  simp [ofJson?, fields, Codec.text.orElse]

theorem DocIndex.written (i : DocIndex) : Written i.toJson
    [("functions", some (.ofList FunctionDoc.toJson i.functions)),
      ("classes", some (.ofList ClassDoc.toJson i.classes)),
      ("variables", some (.ofList VariableDoc.toJson i.vars)),
      ("directives", some (.ofList DirectiveDoc.toJson i.directives))] :=
  ⟨rfl, by simp [(Codec.list FunctionDoc.codec).textual, (Codec.list ClassDoc.codec).textual,
    (Codec.list VariableDoc.codec).textual, (Codec.list DirectiveDoc.codec).textual]⟩

theorem DocIndex.codec : Codec toJson ofJson? := by
  refine ⟨fun i => i.written.record, fun i => ?_⟩
  have fields := i.written.read (by simp)
  simp only [List.map_cons, List.map_nil] at fields
  simp [ofJson?, fields, (Codec.list FunctionDoc.codec).orElse, (Codec.list ClassDoc.codec).orElse,
    (Codec.list VariableDoc.codec).orElse, (Codec.list DirectiveDoc.codec).orElse]

/-- An index is read back from what is written for it, as a value and as text on one line or over
several. So what was read from any text is read again from what is written for it. -/
theorem docIndex_readBack (i : DocIndex) : DocIndex.ofJson? i.toJson = some i ∧
    DocIndex.parse? i.toJson.compact = some i ∧ DocIndex.parse? i.toJson.pretty = some i ∧
    ∀ text, DocIndex.parse? text = some i → DocIndex.parse? i.toJson.compact =
      DocIndex.parse? text ∧ DocIndex.parse? i.toJson.pretty = DocIndex.parse? text := by
  have read := DocIndex.codec.read i
  have compact : DocIndex.parse? i.toJson.compact = some i := by
    rw [DocIndex.parse?, scan?_compact (DocIndex.codec.textual i), Option.bind_some, read]
  have pretty : DocIndex.parse? i.toJson.pretty = some i := by
    rw [DocIndex.parse?, scan?_pretty (DocIndex.codec.textual i), Option.bind_some, read]
  refine ⟨read, compact, pretty, ?_⟩
  intro text loaded
  rw [compact, pretty, loaded]
  exact ⟨rfl, rfl⟩

/-- A class with a method whose parameter has no type and whose return type is `null`, an unknown
field and an escaped sign. -/
theorem docIndex_readBack_sample :
    ∃ text i, text =
        "\x7b\"classes\":[\x7b\"Since\":[1],\"Methods\":[\x7b\"Name\":\"\\u00e9\",\"ReturnType\":null," ++
          "\"Parameters\":[\x7b\"Name\":\"A\\n\"\x7d]\x7d]\x7d]\x7d" ∧
      i = ⟨[], [⟨"", "", "", [⟨"é", "", "", "", [⟨"A\n", "", none, false⟩], none, []⟩], []⟩],
        [], []⟩ ∧
      DocIndex.parse? text = some i ∧ DocIndex.parse? i.toJson.compact = DocIndex.parse? text ∧
      DocIndex.parse? i.toJson.pretty = DocIndex.parse? text := by
  refine ⟨_, _, rfl, rfl, ?_⟩
  have loaded : DocIndex.parse?
      ("\x7b\"classes\":[\x7b\"Since\":[1],\"Methods\":[\x7b\"Name\":\"\\u00e9\",\"ReturnType\":null," ++
        "\"Parameters\":[\x7b\"Name\":\"A\\n\"\x7d]\x7d]\x7d]\x7d") =
      some ⟨[], [⟨"", "", "", [⟨"é", "", "", "", [⟨"A\n", "", none, false⟩], none, []⟩], []⟩],
        [], []⟩ := by
    decide +kernel
  exact ⟨loaded, (docIndex_readBack _).2.2.2 _ loaded⟩

end ScriptLens
