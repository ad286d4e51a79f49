import ScriptLens.Lint.Brackets
import ScriptLens.Proofs.Spans.Nesting

/-!
Braces and recovery. Recovery passes over all tokens from the one at which a statement failed to the
end of the line or a word that starts a statement, and a directive takes the rest of its line as its
value; braces among these tokens open and close nothing. All other braces are matched by the parser,
so a block is dropped as unclosed exactly as often as more closing than opening braces are lost.
-/

namespace ScriptLens

/-- Recovery passed over the token: it stands between the token at which the statement failed and
the end of what was dropped. -/
def Skipped.passes (e : Skipped) (t : Token) : Bool :=
  e.error.found.start.offset ≤ t.start.offset && t.stop.offset ≤ e.span.stop.offset

/-- The tokens that no rule looks at: those that are gone and the values of directives, which end
with their line. -/
def lost (gone : Token → Bool) : Bool → List Token → List Token
  | _, [] => []
  | inValue, t :: rest =>
    if gone t then t :: lost gone false rest
    else if inValue && t.kind != .newline && t.kind != .eof then t :: lost gone true rest
    else lost gone (t.kind = .directive) rest

namespace Piece

/-- The tokens that recovery passed over. -/
def passed (ps : List Piece) : List Token :=
  readAll ⟨fun _ => [], fun _ _ => [], fun _ ts => ts, fun ts beyond _ => ts ++ beyond⟩ ps

/-- The tokens that a rule consumed. -/
def taken (ps : List Piece) : List Token :=
  readAll ⟨fun t => [t], fun first value => first :: value, fun _ ts => ts, fun ts _ _ => ts⟩ ps

section Equations

variable (t first : Token) (value beyond : List Token) (span : Span) (entry : Skipped)
  (parts ps : List Piece)

@[simp] theorem passed_nil : passed [] = [] := rfl
@[simp] theorem passed_token : passed (token t :: ps) = passed ps := rfl
@[simp] theorem passed_line : passed (line first value :: ps) = passed ps := rfl
@[simp] theorem passed_node : passed (node span parts :: ps) = passed parts ++ passed ps := rfl
@[simp] theorem passed_dropped :
    passed (dropped parts beyond entry :: ps) = passed parts ++ beyond ++ passed ps :=
  rfl

@[simp] theorem taken_nil : taken [] = [] := rfl
@[simp] theorem taken_token : taken (token t :: ps) = t :: taken ps := rfl
@[simp] theorem taken_line : taken (line first value :: ps) = first :: (value ++ taken ps) := rfl
@[simp] theorem taken_node : taken (node span parts :: ps) = taken parts ++ taken ps := rfl
@[simp] theorem taken_dropped :
    taken (dropped parts beyond entry :: ps) = taken parts ++ taken ps :=
  rfl

end Equations

namespace Sound

variable {rest : List Token} {ps : List Piece}

theorem taken_subset (h : Sound rest ps) : taken ps ⊆ leaves ps := by
  induction h with
  | nil => exact List.Subset.refl _
  | token _ _ ih => exact List.cons_subset_cons _ ih
  | line _ _ _ _ _ ih =>
      intro t member
      rw [taken_line, List.mem_cons, List.mem_append] at member
      rw [leaves_line, List.mem_cons, List.mem_append]
      exact member.imp_right (Or.imp_right fun later => ih later)
  | node _ _ _ inside later =>
      intro t member
      rw [taken_node, List.mem_append] at member
      rw [leaves_node, List.mem_append]
      exact member.imp (fun deeper => inside deeper) fun behind => later behind
  | dropped _ _ _ _ inside later =>
      intro t member
      rw [taken_dropped, List.mem_append] at member
      rw [leaves_dropped, List.mem_append, List.mem_append]
      exact member.imp (fun deeper => .inl (inside deeper)) fun behind => later behind

/-- A statement fails at a token of the script. -/
theorem found_mem (h : Sound rest ps) : ∀ e ∈ entries ps, e.error.found ∈ leaves ps ++ rest := by
  induction h with
  | nil => simp
  | token _ _ ih =>
      intro e member
      exact List.mem_cons_of_mem _ (ih e member)
  | line _ _ _ _ _ ih =>
      intro e member
      have known := ih e member
      simp only [leaves_line, List.cons_append, List.append_assoc, List.mem_cons,
        List.mem_append] at known ⊢
      exact .inr (.inr known)
  | node _ _ _ inside later =>
      intro e member
      rw [entries_node, List.mem_append] at member
      rw [leaves_node, List.append_assoc]
      rcases member with deeper | behind
      · exact inside e deeper
      · exact List.mem_append_right _ (later e behind)
  | dropped _ head _ _ inside later =>
      intro e member
      rw [entries_dropped, List.mem_append, List.mem_append, List.mem_singleton] at member
      rw [leaves_dropped, List.append_assoc, List.append_assoc]
      rcases member with (deeper | rfl) | behind
      · exact inside e deeper
      · exact List.mem_append_right _ (List.mem_of_head? head)
      · exact List.mem_append_right _ (List.mem_append_right _ (later e behind))

theorem passes_of_passed (h : Sound rest ps) (order : InOrder (leaves ps)) :
    ∀ t ∈ passed ps, ∃ e ∈ entries ps, e.passes t = true := by
  induction h with
  | nil => simp
  | @token _ first _ _ _ ih =>
      have order : InOrder ([first] ++ _) := order
      exact ih order.right
  | @line _ first value _ _ _ _ _ _ _ ih =>
      have order : InOrder ((first :: value) ++ _) := order
      exact ih order.right
  | node _ _ _ inside later =>
      intro t member
      rw [leaves_node] at order
      rw [passed_node, List.mem_append] at member
      rw [entries_node]
      rcases member with deeper | behind
      · obtain ⟨e, known, passes⟩ := inside order.left t deeper
        exact ⟨e, List.mem_append_left _ known, passes⟩
      · obtain ⟨e, known, passes⟩ := later order.right t behind
        exact ⟨e, List.mem_append_right _ known, passes⟩
  | @dropped _ parts beyond entry _ covers head _ _ inside later =>
      intro t member
      rw [leaves_dropped] at order
      rw [passed_dropped, List.mem_append, List.mem_append] at member
      rw [entries_dropped]
      rcases member with (deeper | here) | behind
      · obtain ⟨e, known, passes⟩ := inside order.left.left t deeper
        exact ⟨e, by simp [known], passes⟩
      · refine ⟨entry, by simp, ?_⟩
        obtain ⟨first, others, rfl⟩ := List.exists_cons_of_ne_nil (List.ne_nil_of_mem here)
        have found : entry.error.found = first := (Option.some.inj head).symm
        obtain ⟨last, final, stop⟩ := covers.last
        have start := order.left.right.head_le rfl here
        have ends := order.left.le_getLast final (List.mem_append_right _ here)
        rw [← stop] at ends
        rw [Skipped.passes, found]
        simp [start, ends]
      · obtain ⟨e, known, passes⟩ := later order.right t behind
        exact ⟨e, by simp [known], passes⟩

theorem not_passes_before {e : Skipped} {t : Token} (wide : t.start.offset < t.stop.offset)
    (before : t.stop.offset ≤ e.error.found.start.offset) : e.passes t = false := by
  rw [Skipped.passes, Bool.and_eq_false_iff]
  left
  apply decide_eq_false
  omega

theorem not_passes_behind {tokens more : List Token} {e : Skipped} {t : Token}
    (order : InOrder (tokens ++ more))
    (within : e.span.Within tokens) (member : t ∈ more) : e.passes t = false := by
  obtain ⟨_, _, last, known, _, stop⟩ := within.edges
  have apart := order.le known member
  have wide := order.nonempty t (List.mem_append_right _ member)
  rw [Skipped.passes, Bool.and_eq_false_iff]
  right
  apply decide_eq_false
  rw [stop]
  omega

theorem not_passes_of_taken (h : Sound rest ps) (order : InOrder (leaves ps))
    (apart : (leaves ps ++ rest).Pairwise fun a b => a.stop.offset ≤ b.start.offset) :
    ∀ t ∈ taken ps, ∀ e ∈ entries ps, e.passes t = false := by
  -- A token and a dropped statement of different pieces lie apart; of one piece, by induction.
  have across {front back : List Token} (order : InOrder front)
      (apart : (front ++ back).Pairwise fun a b => a.stop.offset ≤ b.start.offset) {t : Token}
      {e : Skipped} (member : t ∈ front) (found : e.error.found ∈ back) : e.passes t = false :=
    not_passes_before (order.nonempty t member)
      ((List.pairwise_append.mp apart).2.2 t member _ found)
  induction h with
  | nil => simp
  | @token _ first _ _ tail ih =>
      have order : InOrder ([first] ++ _) := order
      have apart : ([first] ++ (_ ++ _)).Pairwise _ := apart
      intro t member e known
      rcases List.mem_cons.mp member with rfl | later
      · exact across order.left apart List.mem_cons_self (tail.found_mem e known)
      · exact ih order.right (List.pairwise_append.mp apart).2.1 t later e known
  | @line _ first value _ _ _ _ _ _ tail ih =>
      have order : InOrder ((first :: value) ++ _) := order
      rw [leaves_line, ← List.cons_append, List.append_assoc] at apart
      intro t member e known
      rw [taken_line, ← List.cons_append, List.mem_append] at member
      rcases member with here | later
      · exact across order.left apart here (tail.found_mem e known)
      · exact ih order.right (List.pairwise_append.mp apart).2.1 t later e known
  | node _ inner tail inside later =>
      rw [leaves_node] at order apart
      rw [List.append_assoc] at apart
      intro t member e known
      rw [taken_node, List.mem_append] at member
      rw [entries_node, List.mem_append] at known
      rcases member with deeper | behind
      · rcases known with same | other
        · exact inside order.left apart t deeper e same
        · exact across order.left apart (inner.taken_subset deeper) (tail.found_mem e other)
      · rcases known with other | same
        · exact not_passes_behind order ((inner.laminar order.left).entries e other)
            (tail.taken_subset behind)
        · exact later order.right (List.pairwise_append.mp apart).2.1 t behind e same
  | @dropped _ parts beyond entry _ covers head inner tail inside later =>
      rw [leaves_dropped] at order apart
      have apart' := apart
      rw [List.append_assoc, List.append_assoc] at apart'
      rw [List.append_assoc] at apart
      intro t member e known
      rw [taken_dropped, List.mem_append] at member
      rw [entries_dropped, List.mem_append, List.mem_append, List.mem_singleton] at known
      rcases member with deeper | behind
      · have front := inner.taken_subset deeper
        rcases known with (same | rfl) | other
        · exact inside order.left.left apart' t deeper e same
        · exact across order.left.left apart' front (List.mem_of_head? head)
        · exact across order.left apart (List.mem_append_left _ front) (tail.found_mem e other)
      · rcases known with (other | rfl) | same
        · have within : e.span.Within (leaves parts ++ beyond) :=
            ((inner.laminar order.left.left).entries e other).left
          exact not_passes_behind order within (tail.taken_subset behind)
        · exact not_passes_behind order covers.within (tail.taken_subset behind)
        · exact later order.right (List.pairwise_append.mp apart).2.1 t behind e same

end Sound

end Piece

section Counts

variable {gone : Token → Bool}

theorem lost_gone {beyond : List Token} (rest : List Token) (away : ∀ t ∈ beyond, gone t = true) :
    lost gone false (beyond ++ rest) = beyond ++ lost gone false rest := by
  induction beyond with
  | nil => rfl
  | cons t beyond ih =>
      rw [List.cons_append, lost, if_pos (away t List.mem_cons_self),
        ih fun u member => away u (by simp [member])]
      rfl

theorem lost_value {value : List Token} (rest : List Token) (kept : ∀ t ∈ value, gone t = false)
    (line : ∀ t ∈ value, t.kind ≠ .newline) (going : ∀ t ∈ value, t.kind ≠ .eof) :
    lost gone true (value ++ rest) = value ++ lost gone true rest := by
  induction value with
  | nil => rfl
  | cons t value ih =>
      have inLine : (true && t.kind != .newline && t.kind != .eof) = true := by
        simp [line t List.mem_cons_self, going t List.mem_cons_self]
      rw [List.cons_append, lost, kept t List.mem_cons_self, if_neg Bool.false_ne_true,
        if_pos inLine,
        ih (fun u member => kept u (by simp [member])) (fun u member => line u (by simp [member]))
          fun u member => going u (by simp [member])]
      rfl

/-- A value ends with its line. -/
theorem lost_endsLine {rest : List Token} {next : Token} (head : rest.head? = some next)
    (ends : next.kind = .newline ∨ next.kind = .eof) :
    lost gone true rest = lost gone false rest := by
  obtain ⟨more, rfl⟩ := List.head?_eq_some_iff.mp head
  have out (inValue : Bool) : (inValue && next.kind != .newline && next.kind != .eof) = false := by
    rcases ends with kind | kind <;> simp [kind]
  rw [lost, lost, out, out]

theorem lost_taken {t : Token} (rest : List Token) (kept : gone t = false) :
    lost gone false (t :: rest) = lost gone (t.kind = .directive) rest := by
  rw [lost, kept]
  rfl

/-- What is lost among the leaves of pieces is what no rule looked at. -/
theorem Piece.Sound.lost_count {rest : List Token} {ps : List Piece} (h : Sound rest ps)
    (kept : ∀ t ∈ taken ps, gone t = false) (away : ∀ t ∈ passed ps, gone t = true)
    (going : ∀ t ∈ leaves ps, t.kind ≠ .eof) (p : Token → Bool) :
    (lost gone false (leaves ps ++ rest)).countP p + (live ps).countP p =
      (leaves ps).countP p + (lost gone false rest).countP p := by
  induction h with
  | nil => simp
  | @token rest t ps other _ ih =>
      have next := ih (fun u member => kept u (by simp [member])) away fun u member =>
        going u (by simp [member])
      rw [leaves_token, List.cons_append, lost_taken _ (kept t (by simp)), decide_eq_false other,
        live_token, List.countP_cons, List.countP_cons]
      omega
  | @line rest first value stop ps kind inLine head ends _ ih =>
      have next := ih (fun u member => kept u (by simp [member])) away fun u member =>
        going u (by simp [member])
      rw [leaves_line, List.cons_append, List.append_assoc, lost_taken _ (kept first (by simp)),
        decide_eq_true kind, lost_value _ (fun u member => kept u (by simp [member])) inLine
        fun u member => going u (by simp [member]), lost_endsLine head ends, live_line,
        List.countP_append, List.countP_cons, List.countP_cons, List.countP_append]
      omega
  | @node rest span parts ps _ _ _ inside later =>
      have first := inside (fun u member => kept u (by simp [member]))
        (fun u member => away u (by simp [member])) fun u member => going u (by simp [member])
      have second := later (fun u member => kept u (by simp [member]))
        (fun u member => away u (by simp [member])) fun u member => going u (by simp [member])
      rw [leaves_node, List.append_assoc, live_node, List.countP_append, List.countP_append]
      omega
  | @dropped rest parts beyond entry ps _ _ _ _ inside later =>
      have first := inside (fun u member => kept u (by simp [member]))
        (fun u member => away u (by simp [member])) fun u member => going u (by simp [member])
      have second := later (fun u member => kept u (by simp [member]))
        (fun u member => away u (by simp [member])) fun u member => going u (by simp [member])
      have all : lost gone false (beyond ++ (leaves ps ++ rest)) =
          beyond ++ lost gone false (leaves ps ++ rest) :=
        lost_gone _ fun u member => away u (by simp [member])
      rw [all, List.countP_append] at first
      rw [leaves_dropped, List.append_assoc, List.append_assoc, live_dropped, List.countP_append,
        List.countP_append, List.countP_append]
      omega

end Counts

namespace Lint.Bracket

/-- Matching brackets leaves over what is opened or closed too often. -/
theorem pair_count (b : Bracket) (stack tokens : List Token) :
    stack.length + tokens.countP (·.kind = b.opening) + (b.pair stack tokens).1.length =
      tokens.countP (·.kind = b.closing) + (b.pair stack tokens).2.length := by
  have apart : b.opening ≠ b.closing := by cases b <;> decide
  induction tokens generalizing stack with
  | nil => simp [pair]
  | cons t rest ih =>
      rw [List.countP_cons, List.countP_cons]
      by_cases opens : t.kind = b.opening
      · have next := ih (t :: stack)
        rw [List.length_cons] at next
        rw [pair_opening opens]
        simp only [opens, if_true, decide_true, decide_eq_false apart, if_neg Bool.false_ne_true]
        omega
      by_cases closes : t.kind = b.closing
      · simp only [closes, if_true, decide_true, decide_eq_false apart.symm,
          if_neg Bool.false_ne_true]
        cases stack with
        | nil =>
            have next := ih []
            rw [pair_closing_unmatched closes]
            dsimp only [List.length_cons]
            omega
        | cons first stack =>
            have next := ih stack
            rw [pair_closing closes, List.length_cons]
            omega
      · have next := ih stack
        rw [pair_other opens closes]
        simp only [decide_eq_false opens, decide_eq_false closes, if_neg Bool.false_ne_true]
        omega

/-- Where nothing is found about brackets, as many close as open. -/
theorem count_of_findings (b : Bracket) {tokens : List Token} (none : b.findings tokens = []) :
    tokens.countP (·.kind = b.opening) = tokens.countP (·.kind = b.closing) := by
  have count := pair_count b [] tokens
  rw [pair_of_findings none] at count
  simpa using count

end Lint.Bracket

/-- Only a block that is not closed has a message that says so. -/
theorem ParseError.unclosed_iff (e : ParseError) :
    e.unclosed = true ↔ ∃ found, e.message = "Expected '\x7d' to close block, found " ++ found := by
  constructor
  · intro unclosed
    have cause : e.cause = .expected .closeBlock := of_decide_eq_true unclosed
    refine ⟨e.found.describe, ?_⟩
    rw [message, cause]
    rfl
  · rintro ⟨found, same⟩
    -- The eleventh character of a message tells what was expected.
    have letter := congrArg (fun text : String => text.toList[10]?) same
    rw [message, String.append_assoc, String.toList_append, String.toList_append] at letter
    rw [unclosed]
    apply decide_eq_true
    cases cause : e.cause with
    | expected what =>
        rw [cause] at letter
        cases what <;> first | rfl | exact absurd letter (by simp [ParseCause.text, Expected.text])
    | invalidTarget =>
        rw [cause] at letter
        exact absurd letter (by simp [ParseCause.text])
    | nestedTooDeeply =>
        rw [cause] at letter
        exact absurd letter (by simp [ParseCause.text])
    | chainTooLong =>
        rw [cause] at letter
        exact absurd letter (by simp [ParseCause.text])

/-- The tokens that no rule looked at in a script that was parsed. -/
def ParseOutput.lost (out : ParseOutput) (tokens : List Token) : List Token :=
  ScriptLens.lost (fun t => out.skipped.any (·.passes t)) false (tokens.filter (·.kind != .comment))

/-- Tokens of a kind that a script has are lost or looked at. -/
theorem LaidOut.lost_count {source : String} {front : List Token} {last : Token} {out : ParseOutput}
    {ps : List Piece} (laid : LaidOut front last out ps) (scanned : Scanned source front last)
    {kind : Kind} (comment : kind ≠ .comment) (ending : kind ≠ .eof) :
    (out.lost (front ++ [last])).countP (·.kind = kind) + (Piece.live ps).countP (·.kind = kind) =
      (front ++ [last]).countP (·.kind = kind) := by
  have kept : (front.filter (·.kind != .comment)).Sublist front := List.filter_sublist
  have order := laid.inOrder scanned
  have apart : (Piece.leaves ps ++ [last]).Pairwise fun a b => a.stop.offset ≤ b.start.offset := by
    rw [laid.leaves]
    exact scanned.apart.sublist (kept.append_right [last])
  have taken : ∀ t ∈ Piece.taken ps, out.skipped.any (·.passes t) = false := by
    intro t member
    rw [List.any_eq_false, ← laid.entries]
    intro e known
    rw [laid.sound.not_passes_of_taken order apart t member e known]
    exact Bool.false_ne_true
  have passed : ∀ t ∈ Piece.passed ps, out.skipped.any (·.passes t) = true := by
    intro t member
    rw [List.any_eq_true, ← laid.entries]
    exact laid.sound.passes_of_passed order t member
  have going : ∀ t ∈ Piece.leaves ps, t.kind ≠ .eof := by
    intro t member
    rw [laid.leaves] at member
    exact scanned.others t (kept.subset member)
  have whole : (front ++ [last]).filter (·.kind != .comment) = Piece.leaves ps ++ [last] := by
    rw [laid.leaves, List.filter_append]
    simp [scanned.closing]
  have filtered : ((front ++ [last]).filter (·.kind != .comment)).countP (·.kind = kind) =
      (front ++ [last]).countP (·.kind = kind) := by
    rw [List.countP_filter]
    apply List.countP_congr
    intro t _
    simp only [Bool.and_eq_true, decide_eq_true_eq, bne_iff_ne, and_iff_left_iff_imp]
    rintro rfl
    exact comment
  have final : (lost (fun t => out.skipped.any (·.passes t)) false [last]).countP (·.kind = kind) =
      0 ∧ [last].countP (·.kind = kind) = 0 := by
    have other : decide (last.kind = kind) = false := by
      rw [scanned.closing]
      exact decide_eq_false ending.symm
    unfold lost
    split <;> simp [lost, other]
  have counted := laid.sound.lost_count taken passed going fun t => t.kind = kind
  rw [ParseOutput.lost, ← filtered, whole, List.countP_append]
  omega

theorem unclosed_none (skipped : List Skipped) :
    (∀ e ∈ skipped, ¬∃ found, e.error.message = "Expected '\x7d' to close block, found " ++ found) ↔
      skipped.countP (·.error.unclosed) = 0 := by
  rw [List.countP_eq_zero]
  apply forall_congr'
  intro e
  apply imp_congr_right
  intro _
  rw [e.error.unclosed_iff]

/-- Where braces balance, a block is dropped as unclosed for every closing brace that is lost in
excess of the opening ones that are. -/
theorem parse_unclosed {source : String} {tokens : List Token} {out : ParseOutput}
    (read : tokenize source = .ok tokens) (h : parse source = .ok out)
    (balanced : Lint.Bracket.brace.findings tokens = []) :
    out.skipped.countP (·.error.unclosed) + (out.lost tokens).countP (·.kind = .lBrace) =
      (out.lost tokens).countP (·.kind = .rBrace) ∧ ((∀ e ∈ out.skipped, ¬∃ found, e.error.message =
      "Expected '\x7d' to close block, found " ++ found) ↔ (out.lost tokens).countP
      (·.kind = .rBrace) ≤ (out.lost tokens).countP (·.kind = .lBrace)) := by
  obtain ⟨front, last, ps, scanned, laid⟩ := parse_laidOut h
  have same := scanned.tokens
  rw [read] at same
  cases same
  have opens := laid.lost_count scanned (show Kind.lBrace ≠ .comment by decide) (by decide)
  have closes := laid.lost_count scanned (show Kind.rBrace ≠ .comment by decide) (by decide)
  have even :
      (front ++ [last]).countP (·.kind = .lBrace) = (front ++ [last]).countP (·.kind = .rBrace) :=
    Lint.Bracket.count_of_findings .brace balanced
  have level := laid.even
  unfold Piece.Braced at level
  rw [laid.entries] at level
  have equal : out.skipped.countP (·.error.unclosed) + (out.lost (front ++ [last])).countP
      (·.kind = .lBrace) = (out.lost (front ++ [last])).countP (·.kind = .rBrace) := by
    omega
  refine ⟨equal, ?_⟩
  rw [unclosed_none]
  omega

/-- A brace in the value of a directive closes nothing. -/
theorem parse_unclosed_directive : ∃ tokens out, tokenize "loop \x7b\n#x \x7d\n" = .ok tokens ∧
    parse "loop \x7b\n#x \x7d\n" = .ok out ∧ Lint.Bracket.brace.findings tokens = [] ∧
    out.skipped.countP (·.error.unclosed) = 1 ∧
    out.skipped.countP (·.error.unclosed) + (out.lost tokens).countP (·.kind = .lBrace) =
      (out.lost tokens).countP (·.kind = .rBrace) := by
  obtain ⟨tokens, read, balanced⟩ :=
    ok_of_toOption (show (tokenize "loop \x7b\n#x \x7d\n").toOption.map
    (fun tokens => Lint.Bracket.brace.findings tokens) = some [] by decide +kernel)
  obtain ⟨out, parsed, one⟩ := ok_of_toOption (show (parse "loop \x7b\n#x \x7d\n").toOption.map
    (fun out => out.skipped.countP (·.error.unclosed)) = some 1 by decide +kernel)
  exact ⟨tokens, out, read, parsed, balanced, one, (parse_unclosed read parsed balanced).1⟩

/-- Recovery takes the closing brace of a block along when a statement fails before it on its
line. -/
theorem parse_loses_brace : ¬∀ (source : String) (tokens : List Token) (out : ParseOutput),
    tokenize source = .ok tokens →
    parse source = .ok out → Lint.Bracket.brace.findings tokens = [] → ∀ e ∈ out.skipped, ¬∃ found,
    e.error.message = "Expected '\x7d' to close block, found " ++ found := by
  intro never
  obtain ⟨tokens, read, balanced⟩ :=
    ok_of_toOption (show (tokenize "loop \x7b a := \x7d").toOption.map
    (fun tokens => Lint.Bracket.brace.findings tokens) = some [] by decide +kernel)
  obtain ⟨out, parsed, causes⟩ := ok_of_toOption (show (parse "loop \x7b a := \x7d").toOption.map
    (fun out => out.skipped.map (·.error.unclosed)) = some [false, true] by decide +kernel)
  have unclosed : true ∈ out.skipped.map (·.error.unclosed) := by
    rw [causes]
    simp
  obtain ⟨e, member, cause⟩ := List.mem_map.mp unclosed
  exact never _ tokens out read parsed balanced e member (e.error.unclosed_iff.mp cause)

end ScriptLens
