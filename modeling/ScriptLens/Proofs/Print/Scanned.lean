import ScriptLens.Proofs.Print.Lines

/-!
The scanner reads printed lines back: the tokens it gives spell the words that were printed.
-/

namespace ScriptLens

namespace Scanner

/-- From one scanner to another over a text that spells words. -/
structure Lexed (source : List Char) (s s' : Scanner) (text : List Char)
    (words : List Word) : Prop where
  here : s'.here = s.here.after text
  tokens : ∃ tokens, s'.held = s.held ++ tokens ∧ Spells source words tokens ∧
    ∀ t ∈ tokens, t.kind ≠ .eof ∧ t.kind ≠ .comment

variable {source : List Char}

theorem Lexed.refl (s : Scanner) : Lexed source s s [] [] := ⟨rfl, [], by simp, .nil, by simp⟩

theorem Lexed.trans {s t u : Scanner} {a b : List Char} {words more : List Word}
    (first : Lexed source s t a words)
    (second : Lexed source t u b more) : Lexed source s u (a ++ b) (words ++ more) := by
  obtain ⟨ts, held, spells, kinds⟩ := first.tokens
  obtain ⟨us, held', spells', kinds'⟩ := second.tokens
  refine ⟨?_, ts ++ us, ?_, spells.append spells', ?_⟩
  · rw [second.here, first.here, Position.after_append]
  · rw [held', held, List.append_assoc]
  · intro t member
    rcases List.mem_append.mp member with inFirst | inSecond
    · exact kinds t inFirst
    · exact kinds' t inSecond

/-- A word, the blank behind it and the words behind that. -/
theorem Lexed.spaced {s t u v : Scanner} {w next : Word} {words : List Word}
    (first : Lexed source s t w.text [w]) (blank : Lexed source t u [' '] [])
    (rest : Lexed source u v (Word.unwords (next :: words)) (next :: words)) :
    Lexed source s v (Word.unwords (w :: next :: words)) (w :: next :: words) := by
  have all := first.trans (blank.trans rest)
  exact all

variable (source)

theorem lexed_blank (s : Scanner) (more : List Char) :
    ∃ s' : Scanner, s.run (' ' :: more) = s'.run more ∧ Lexed source s s' [' '] [] := by
  have blank : Lexeme.read ' ' more = ⟨.blank, [' '], more⟩ := rfl
  refine ⟨s.take ⟨.blank, [' '], more⟩, ?_, rfl, [], by simp [held, take], .nil, by simp⟩
  rw [run_lexeme (by rw [blank]; simp), blank]

theorem lexed_push (s : Scanner) (kind : Kind) (text : String) (eof : kind ≠ .eof)
    (comment : kind ≠ .comment) :
    Lexed source s (s.push kind text.toList) text.toList [.token kind text] := by
  refine ⟨push_here .., [⟨kind, text, s.here, s.here.after text.toList⟩], ?_,
    .single source ⟨kind, text, s.here, s.here.after text.toList⟩, ?_⟩
  · rw [held_push, String.ofList_toList]
  · intro t member
    rw [List.mem_singleton.mp member]
    exact ⟨eof, comment⟩

/-- The end of a line, behind which nothing is claimed any more. -/
theorem lexed_newline (s : Scanner) (more : List Char) :
    ∃ s' : Scanner, s.run ('\n' :: more) = s'.run more ∧ Lexed source s s' ['\n'] [.newline] ∧
      s'.stretch = .fresh s'.here := by
  have line : Lexeme.read '\n' more = ⟨.token .newline, ['\n'], more⟩ := rfl
  refine ⟨s.push .newline ['\n'], ?_,
    lexed_push source s .newline "\n" (by decide) (by decide), rfl⟩
  rw [run_lexeme (by rw [line]; simp), line]
  rfl

/-- A whole token before a blank or the end of its line. -/
theorem lexed_inline {w : Word} (h : w.isInline = true) {stop : Char}
    (hstop : stop = ' ' ∨ stop = '\n') (s : Scanner) (more : List Char) : ∃ s' : Scanner,
    s.run (w.text ++ stop :: more) = s'.run (stop :: more) ∧ Lexed source s s' w.text [w] := by
  cases w with
  | value text => cases h
  | token kind text =>
      rw [Word.isInline, Bool.and_eq_true] at h
      obtain ⟨c, rest, chars, read⟩ := isWhole_iff.mp h.1
      have eof : kind ≠ .eof := by
        rintro rfl
        exact absurd h.2 (by decide)
      have comment : kind ≠ .comment := by
        rintro rfl
        exact absurd h.2 (by decide)
      refine ⟨s.push kind text.toList, ?_, lexed_push source s kind text eof comment⟩
      have isStop' : isStop stop = true := by
        rcases hstop with rfl | rfl <;> rfl
      have colon : c = ':' → stop ≠ ':' := by
        rintro -
        rcases hstop with rfl | rfl <;> decide
      have semicolon : c ≠ ';' := by
        rintro rfl
        have shape := congrArg Lexeme.shape read
        exact comment (Shape.token.inj shape).symm
      have closed : (Lexeme.read c rest).shape ≠ .unclosed := by
        rw [read]
        simp
      have here := Lexeme.read_stop isStop' semicolon colon closed more
      rw [read] at here
      rw [Word.text, chars, List.cons_append, run_lexeme (by rw [here]; simp [Lexeme.before]), here]
      rfl

/-- The words of a line, with the blanks between them. -/
theorem lexed_words {words : List Word} (h : Inline words) (s : Scanner) (more : List Char) :
    ∃ s' : Scanner, s.run (Word.unwords words ++ '\n' :: more) = s'.run ('\n' :: more) ∧
      Lexed source s s' (Word.unwords words) words := by
  induction words generalizing s with
  | nil => exact ⟨s, rfl, .refl s⟩
  | cons w words ih =>
      obtain ⟨head, tail⟩ := inline_cons.mp h
      cases words with
      | nil => exact lexed_inline source head (.inr rfl) s more
      | cons v words =>
          have shape : Word.unwords (w :: v :: words) ++ '\n' :: more =
              w.text ++ ' ' :: (Word.unwords (v :: words) ++ '\n' :: more) := by
            simp [Word.unwords]
          obtain ⟨t, run, first⟩ := lexed_inline source head (.inl rfl) s
            (Word.unwords (v :: words) ++ '\n' :: more)
          obtain ⟨u, run', blank⟩ :=
            lexed_blank source t (Word.unwords (v :: words) ++ '\n' :: more)
          obtain ⟨s', run'', rest⟩ := ih tail u
          refine ⟨s', ?_, ?_⟩
          · rw [shape, run, run', run'']
          · exact first.spaced blank rest

end Scanner

namespace Tiled

theorem first {p : Position} {text : List Char} {tokens : List Token} (h : Tiled p text tokens)
    (nonempty : text ≠ [])
    (head : text.head?.any isBlank = false) : ∃ t, tokens.head? = some t ∧ t.start = p := by
  cases h with
  | blank gap =>
      cases text with
      | nil => exact absurd rfl nonempty
      | cons c text =>
          have blank : isBlank c = true := gap c List.mem_cons_self
          rw [List.head?_cons, Option.any_some, blank] at head
          cases head
  | @token _ gap body rest t tokens hgap covers tail =>
      cases gap with
      | nil => exact ⟨t, rfl, covers.start⟩
      | cons c gap =>
          have blank : isBlank c = true := hgap c List.mem_cons_self
          rw [List.cons_append, List.head?_cons, Option.any_some, blank] at head
          cases head

theorem eq_nil {p : Position} {tokens : List Token} (h : Tiled p [] tokens) : tokens = [] := by
  generalize empty : ([] : List Char) = text at h
  cases h with
  | blank _ => rfl
  | token _ covers _ => simp [covers.nonempty] at empty

theorem last {p : Position} {text : List Char} {tokens : List Token} (h : Tiled p text tokens)
    (nonempty : text ≠ []) (tail : text.getLast?.any isBlank = false) :
    ∃ t, tokens.getLast? = some t ∧ t.stop = p.after text := by
  induction h with
  | @blank p gap hgap =>
      have blank := hgap _ (List.getLast_mem nonempty)
      rw [List.getLast?_eq_some_getLast nonempty, Option.any_some, blank] at tail
      cases tail
  | @token p gap body rest t tokens hgap covers behind ih =>
      have place : p.after (gap ++ (body ++ rest)) = t.stop.after rest := by
        rw [Position.after_append, Position.after_append, covers.stop]
      cases rest with
      | nil =>
          rw [behind.eq_nil, place]
          exact ⟨t, rfl, rfl⟩
      | cons c rest =>
          have same : (gap ++ (body ++ c :: rest)).getLast? = (c :: rest).getLast? := by
            rw [← List.append_assoc, List.getLast?_append,
              List.getLast?_eq_some_getLast (List.cons_ne_nil c rest)]
            rfl
          rw [same] at tail
          obtain ⟨u, found, stop⟩ := ih (List.cons_ne_nil _ _) tail
          refine ⟨u, ?_, ?_⟩
          · cases tokens with
            | nil => cases found
            | cons v tokens => rw [List.getLast?_cons_cons, found]
          · rw [stop, place]

end Tiled

namespace Scanner

variable {source : List Char}

theorem isBlank_of_edge {found : Option Char}
    (h : found.any (fun c => Text.isSpace c || decide (c = '\ufeff')) = false) :
    found.any isBlank = false := by
  cases found with
  | none => rfl
  | some c =>
      rw [Option.any_some] at h ⊢
      rw [Bool.eq_false_iff]
      intro blank
      simp only [isBlank, Bool.or_eq_true, decide_eq_true_eq] at blank
      rcases blank with ((rfl | rfl) | rfl) | rfl <;> exact absurd h (by decide)

/-- The value of a directive, up to the end of its line. -/
theorem lexed_value {value : String} (h : isDirectiveValue value = true) (nonempty : value ≠ "")
    {s : Scanner}
    {before more : List Char} (whole : source = before ++ (value.toList ++ '\n' :: more))
    (here : s.here = Position.start.after before) :
    ∃ s' : Scanner, s.run (value.toList ++ '\n' :: more) = s'.run ('\n' :: more) ∧
      Lexed source s s' value.toList [.value value] := by
  simp only [isDirectiveValue, Bool.and_eq_true, Bool.not_eq_true', List.all_eq_true,
    decide_eq_true_eq] at h
  obtain ⟨⟨⟨chars, pairless⟩, first⟩, last⟩ := h
  have plain : Plain value.toList := by
    refine ⟨chars, fun pair => ?_⟩
    rw [Text.contains_of_infix pair] at pairless
    cases pairless
  have line : isStop '\n' = true := rfl
  have other : '\n' = ':' → ':' ∉ value.toList := by
    intro same
    cases same
  obtain ⟨tokens, run, tiled, inline⟩ := run_plain line more plain other s
  have chars_ne : value.toList ≠ [] := by
    intro none
    exact nonempty (String.toList_injective none)
  obtain ⟨a, hfirst, start⟩ := tiled.first chars_ne (isBlank_of_edge first)
  obtain ⟨b, hlast, stop⟩ := tiled.last chars_ne (isBlank_of_edge last)
  have kinds : ∀ t ∈ tokens, t.kind ≠ .newline ∧ t.kind ≠ .eof ∧ t.kind ≠ .comment := by
    intro t member
    have kind := inline t member
    simpa [Kind.isInline] using kind
  have isValue : IsValue source value tokens := by
    refine ⟨kinds, a, b, hfirst, hlast, ?_⟩
    refine Text.slice?_of_eq whole ?_ ?_
    · rw [start, here]
      simp
    · rw [stop, here]
      simp
  refine ⟨s.past value.toList tokens, run, rfl, tokens, held_past .., ?_,
    fun t member => (kinds t member).2⟩
  have spells : Spells source [.value value] (tokens ++ []) := .value isValue .nil
  rwa [List.append_nil] at spells

/-- The trigger of a hotkey at the start of a line. -/
theorem lexed_trigger {trigger : String} (h : isTrigger trigger = true) {s : Scanner}
    (fresh : s.stretch = .fresh s.here) (more : List Char) :
    ∃ s' : Scanner, s.run (trigger.toList ++ more) = s'.run more ∧
      Lexed source s s' trigger.toList [.token .hotkey trigger] := by
  simp only [isTrigger, Bool.and_eq_true, Bool.not_eq_true', List.all_eq_true,
    decide_eq_true_eq] at h
  obtain ⟨⟨⟨shape, chars⟩, first⟩, last⟩ := h
  obtain ⟨s', t, run, here, held, kind, text⟩ := run_trigger chars first last more fresh
  rw [← shape] at run here text
  rw [String.ofList_toList] at text
  refine ⟨s', run, here, [t], held, ?_, ?_⟩
  · rw [← kind, ← text]
    exact .single source t
  · intro u member
    rw [List.mem_singleton.mp member, kind]
    decide

/-- A line is read back, and the next one starts afresh. -/
theorem lexed_line {line : List Word} (h : IsLine line) {s : Scanner}
    (fresh : s.stretch = .fresh s.here)
    {before more : List Char} (whole : source = before ++ (Word.unwords line ++ '\n' :: more))
    (here : s.here = Position.start.after before) :
    ∃ s' : Scanner, s.run (Word.unwords line ++ '\n' :: more) = s'.run more ∧
      Lexed source s s' (Word.unwords line ++ ['\n']) (line ++ [Word.newline]) ∧
      s'.stretch = .fresh s'.here := by
  have words : ∃ t : Scanner, s.run (Word.unwords line ++ '\n' :: more) = t.run ('\n' :: more) ∧
      Lexed source s t (Word.unwords line) line := by
    cases h with
    | inline all => exact lexed_words source all s more
    | @hotkey trigger ok =>
        have brace : Inline [.lBrace] := by simp
        obtain ⟨t, run, first⟩ :=
          lexed_trigger ok fresh (' ' :: (Word.unwords [.lBrace] ++ '\n' :: more))
        obtain ⟨u, run', blank⟩ := lexed_blank source t (Word.unwords [.lBrace] ++ '\n' :: more)
        obtain ⟨v, run'', rest⟩ := lexed_words source brace u more
        refine ⟨v, ?_, Lexed.spaced first blank rest⟩
        rw [← run'', ← run', ← run]
        simp [Word.unwords, Word.text]
    | @directive name value okName okValue nonempty =>
        have named : (Word.token .directive name).isInline = true :=
          isInline_of_isDirectiveName okName
        have shape : Word.unwords [.token .directive name, .value value] ++ '\n' :: more =
            name.toList ++ ' ' :: (value.toList ++ '\n' :: more) := by
          simp [Word.unwords, Word.text]
        obtain ⟨t, run, first⟩ :=
          lexed_inline source named (.inl rfl) s (value.toList ++ '\n' :: more)
        obtain ⟨u, run', blank⟩ := lexed_blank source t (value.toList ++ '\n' :: more)
        have place : u.here = Position.start.after (before ++ (name.toList ++ [' '])) := by
          rw [Position.after_append, ← here]
          exact (first.trans blank).here
        have whole' :
            source = before ++ (name.toList ++ [' ']) ++ (value.toList ++ '\n' :: more) := by
          rw [whole, shape]
          simp
        obtain ⟨v, run'', rest⟩ := lexed_value okValue nonempty whole' place
        refine ⟨v, ?_, Lexed.spaced first blank rest⟩
        rw [shape, ← run'', ← run', ← run]
        rfl
  obtain ⟨t, run, first⟩ := words
  obtain ⟨u, run', last, fresh'⟩ := lexed_newline source t more
  exact ⟨u, run.trans run', first.trans last, fresh'⟩

/-- Lines in a row are read back. -/
theorem lexed_lines {lines : List (List Word)} (h : AreLines lines) {s : Scanner}
    (fresh : s.stretch = .fresh s.here) {before : List Char}
    (whole : source = before ++ Word.unlines lines) (here : s.here = Position.start.after before) :
    ∃ s' : Scanner, s.run (Word.unlines lines) = (s', none) ∧
      Lexed source s s' (Word.unlines lines) (Word.flat lines) := by
  induction lines generalizing s before with
  | nil => exact ⟨s, by rw [Word.unlines, run], .refl s⟩
  | cons line lines ih =>
      obtain ⟨head, tail⟩ := areLines_cons.mp h
      obtain ⟨t, run, first, fresh'⟩ := lexed_line head fresh whole here
      have whole' : source = before ++ (Word.unwords line ++ ['\n']) ++ Word.unlines lines := by
        rw [whole, Word.unlines]
        simp
      have place : t.here = Position.start.after (before ++ (Word.unwords line ++ ['\n'])) := by
        rw [first.here, here, ← Position.after_append]
      obtain ⟨s', run', rest⟩ := ih tail fresh' whole' place
      refine ⟨s', run.trans run', ?_⟩
      have all := first.trans rest
      rw [List.append_assoc, List.append_assoc] at all
      rw [Word.flat_cons]
      exact all

end Scanner

/-- The canonical form of a script is scanned without a fault, and its tokens spell it. -/
theorem tokenize_print {p : Program} (wf : p.wellFormed = true) :
    ∃ (tokens : List Token) (final : Token), tokenize p.print = .ok (tokens ++ [final]) ∧
    final.kind = .eof ∧ Spells p.print.toList (Word.flat (Stmt.allLines p.body)) tokens ∧
      ∀ t ∈ tokens, t.kind ≠ .eof ∧ t.kind ≠ .comment := by
  have lines : AreLines (Stmt.allLines p.body) :=
    areLines_all fun s member => areLines s (Stmt.mem_wellFormed wf member)
  have text : p.print.toList = Word.unlines (Stmt.allLines p.body) := String.toList_ofList
  have whole : p.print.toList = [] ++ Word.unlines (Stmt.allLines p.body) := text
  have fresh : Scanner.initial.stretch = .fresh Scanner.initial.here := rfl
  obtain ⟨s, run, read⟩ := Scanner.lexed_lines lines fresh whole rfl
  obtain ⟨tokens, held, spells, kinds⟩ := read.tokens
  refine ⟨tokens, ⟨.eof, "", s.here, s.here⟩, ?_, rfl, spells, kinds⟩
  have all : s.tokens = tokens ++ [⟨.eof, "", s.here, s.here⟩] := by
    rw [Scanner.tokens]
    exact congrArg (· ++ _) held
  rw [tokenize, scan, text, run]
  exact congrArg Except.ok all

end ScriptLens
