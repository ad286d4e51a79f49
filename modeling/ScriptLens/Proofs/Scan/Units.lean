import ScriptLens.Proofs.Scan.Origins
import ScriptLens.Proofs.Scan.Prefix

/-!
Tokens are units of their own. A lexeme is cut out of a script together with what it was read as, so
the text of a token, scanned alone, is this token and the end mark; what stood around it in the
script decides nothing. Hotkeys are left out, whose text is put together from a line.
-/

namespace ScriptLens

/-- The tokens of a text that is a single token: it spans the whole text, and the end mark stands
behind it. -/
def Token.single (kind : Kind) (text : String) : List Token :=
  let stop := Position.start.after text.toList
  [⟨kind, text, .start, stop⟩, ⟨.eof, "", stop, stop⟩]

/-- The scanner reads the text of a lexeme as this lexeme and nothing else. -/
theorem Scanner.run_text {c : Char} {rest : List Char}
    (closed : (Lexeme.read c rest).shape ≠ .unclosed) (s : Scanner) :
    s.run (Lexeme.read c rest).text = (s.take (Lexeme.read c rest), none) := by
  have alone := Scanner.run_cut (s := s) closed (List.nil_append (Lexeme.read c rest).rest).symm
  rwa [List.append_nil, Scanner.run_nil] at alone

/-- The text of a lexeme with a kind is a single token. -/
theorem Lexeme.tokenize_text {c : Char} {rest : List Char} {kind : Kind}
    (shape : (read c rest).shape = .token kind) : tokenize (String.ofList (read c rest).text) =
    .ok (Token.single kind (String.ofList (read c rest).text)) := by
  have closed : (read c rest).shape ≠ .unclosed := by
    rw [shape]
    exact Shape.noConfusion
  have ran := Scanner.run_text closed .initial
  have pushed :
      Scanner.initial.take (read c rest) = Scanner.initial.push kind (read c rest).text := by
    rw [Scanner.take, shape]
  have tokens : (Scanner.initial.push kind (read c rest).text).tokens =
      Token.single kind (String.ofList (read c rest).text) := by
    rw [Scanner.tokens_eq, Scanner.held_push, Scanner.push_here, Token.single, String.toList_ofList]
    rfl
  rw [tokenize, scan, String.toList_ofList, ran, pushed]
  exact congrArg Except.ok tokens

/-- Every token of a scan but the hotkeys and the end mark is a lexeme of its own text. -/
theorem Token.lexeme_of_scan {source : String} {t : Token} (member : t ∈ (scan source).tokens)
    (hotkey : t.kind ≠ .hotkey)
    (eof : t.kind ≠ .eof) : ∃ c rest, (Lexeme.read c rest).shape = .token t.kind ∧
      t.text = String.ofList (Lexeme.read c rest).text := by
  rw [scan_tokens] at member
  rcases List.mem_append.mp member with inside | last
  · obtain ⟨_, body, behind, _, covers, reads⟩ := lineTokens_origin source t inside
    obtain ⟨c, rest, _, read⟩ := reads.first hotkey
    exact ⟨c, rest, congrArg Lexeme.shape read, by rw [read, covers.text hotkey]⟩
  · rw [List.mem_singleton.mp last] at eof
    exact absurd rfl eof

/-- A token of any scan but a hotkey and the end mark, its text scanned alone, is found again with
the same kind and text and nothing beside it. So its kind is that of every token with the same text,
in whatever script this stands. -/
theorem tokens_contextFree {source : String} {t : Token} (member : t ∈ (scan source).tokens)
    (hotkey : t.kind ≠ .hotkey) (eof : t.kind ≠ .eof) :
    tokenize t.text = .ok (Token.single t.kind t.text) ∧ ∀ other, ∀ u ∈ (scan other).tokens,
    u.kind ≠ .hotkey → u.kind ≠ .eof → u.text = t.text → u.kind = t.kind := by
  have alone {source : String} {t : Token} (member : t ∈ (scan source).tokens) (hotkey : t.kind ≠
      .hotkey) (eof : t.kind ≠ .eof) : tokenize t.text = .ok (Token.single t.kind t.text) := by
    obtain ⟨c, rest, shape, text⟩ := Token.lexeme_of_scan member hotkey eof
    rw [text]
    exact Lexeme.tokenize_text shape
  refine ⟨alone member hotkey eof, ?_⟩
  intro other u member' hotkey' eof' same
  have tokens := alone member' hotkey' eof'
  rw [same, alone member hotkey eof] at tokens
  have first := congrArg List.head? (Except.ok.inj tokens)
  exact (congrArg Token.kind (Option.some.inj first)).symm

/-- A radix without digits, before a word and a quote that stays open and in brackets. -/
theorem tokens_contextFree_radix : tokenize "0x" = .ok (Token.single .number "0x") ∧
    ∃ u ∈ (scan "a[0x]").tokens, u.text = "0x" ∧ u.kind = .number := by
  have member :
    ⟨.number, "0x", ⟨1, 1, 0⟩, ⟨1, 3, 2⟩⟩ ∈ (scan "0xg \"\n").tokens := by decide +kernel
  have member' : ⟨.number, "0x", ⟨1, 3, 2⟩, ⟨1, 5, 4⟩⟩ ∈ (scan "a[0x]").tokens := by decide +kernel
  obtain ⟨alone, same⟩ := tokens_contextFree member (by decide) (by decide)
  exact ⟨alone, _, member', rfl, same _ _ member' (by decide) (by decide) rfl⟩

end ScriptLens
