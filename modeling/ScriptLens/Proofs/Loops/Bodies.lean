import ScriptLens.Proofs.Loops.Calm
import ScriptLens.Proofs.Parser.Written
import ScriptLens.Proofs.Spans.Script

/-!
What the rules for statement lists consume tells of the loops in them. A block takes the brace that
a loop waits for, and a body without braces has no brace in front of its first statement. All of
this is said of rules that drop no statement on their way.
-/

namespace ScriptLens

open ParseM ScriptLens.Parser Lint

section Trees

variable {opens : Position → Bool} {all : List Token} {stmt : Stmt} {body : List Stmt}

theorem Stmt.loopsIn_append (around : Nat) (front back : List Stmt) :
    loopsIn opens around (front ++ back) =
    loopsIn opens around front ++ loopsIn opens around back := by
  induction front with
  | nil => rfl
  | cons stmt front ih => rw [List.cons_append, loopsIn, loopsIn, ih, List.append_assoc]

theorem Stmt.loopsOf_eq (h : stmt.loopBody? = some body) : (loopsOf opens · stmt) =
    fun around => (stmt.span.start, around + 1) ::
    loopsIn opens (around + (opens stmt.span.start).toNat) body := by
  cases stmt <;> cases h <;> rfl

theorem Stmt.listsOf_eq (h : stmt.loopBody? = some body) : listsOf stmt = lists body := by
  cases stmt <;> cases h <;> rfl

theorem Stmt.listsOf_subset (member : stmt ∈ body) : listsOf stmt ⊆ lists body := by
  intro list inside
  refine List.mem_cons_of_mem body ?_
  rw [listsInside_eq]
  exact List.mem_flatMap.mpr ⟨stmt, member, inside⟩

theorem Stmt.AllBraced.of_lists (h : AllBraced all (lists body)) (member : stmt ∈ body) :
    stmt.Braced all ∧ AllBraced all (listsOf stmt) :=
  ⟨h body List.mem_cons_self stmt member, fun list inside => h list (listsOf_subset member inside)⟩

end Trees

namespace Parser

open Stmt

variable {α β : Type} {all : List Token} {opens : Position → Bool} {s t u : State}
  {ts us : List Token} {P Q : Prop}

/-- The state stands in the order of all tokens. -/
structure Standing (all : List Token) (s : State) : Prop where
  order : InOrder all
  orderly : s.Orderly
  inside : Inside all s

theorem Standing.taken (h : Standing all s) (taken : Taken s ts t) : Standing all t := by
  have order := h.orderly.order
  have solid := h.orderly.solid
  rw [taken.ahead] at order solid
  exact ⟨h.order, ⟨order.right, taken.closed h.orderly.closed,
    fun u member => solid u (List.mem_append_right ts member)⟩, h.inside.taken taken⟩

theorem Standing.deeper (h : Standing all s) : Standing all { s with depth := s.depth + 1 } :=
  ⟨h.order, ⟨h.orderly.order, h.orderly.closed, h.orderly.solid⟩, h.inside⟩

theorem Standing.begin (h : Standing all s) : Standing all s.begin :=
  ⟨h.order, ⟨h.orderly.order, h.orderly.closed, h.orderly.solid⟩, h.inside⟩

/-- Unless a statement was dropped on the way to the second state. -/
def Undropped (s t : State) (P : Prop) : Prop := t.skipped = [] → s.skipped = [] ∧ P

theorem Undropped.trans (first : Undropped s t P) (second : Undropped t u Q) :
    Undropped s u (P ∧ Q) := by
  intro none
  obtain ⟨none', holds'⟩ := second none
  obtain ⟨none'', holds⟩ := first none'
  exact ⟨none'', holds, holds'⟩

theorem Undropped.imp (h : Undropped s t P) (f : P → Q) : Undropped s t Q :=
  fun none => ⟨(h none).1, f (h none).2⟩

theorem undropped (same : t.skipped = s.skipped) (holds : P) : Undropped s t P :=
  fun none => ⟨same ▸ none, holds⟩

section Meanings

variable {loops more : Nat → List (Position × Nat)} {within further : List (List Stmt)}
  {stmt : Stmt} {body : List Stmt} {first : Token}

/-- The tokens tell of given loops if the loops in some statement lists have braces. -/
def Tells (all : List Token) (opens : Position → Bool) (loops : Nat → List (Position × Nat))
    (within : List (List Stmt)) (ts : List Token) : Prop :=
  AllBraced all within → Counted opens loops ts

/-- No opening brace stands before the first statement. -/
def Unbraced (body : List Stmt) (ts : List Token) : Prop :=
  ∀ t ∈ ts, t.kind = .lBrace → ∃ stmt ∈ body, stmt.span.start.offset < t.stop.offset

/-- The tokens of a body are a block or start without a brace. -/
def Bodied (all : List Token) (opens : Position → Bool) (body : List Stmt)
    (ts : List Token) : Prop :=
  AllBraced all (lists body) → Blocked opens (loopsIn opens · body) ts ∨
    Counted opens (loopsIn opens · body) ts ∧ Unbraced body ts

/-- The tokens of a loop behind its keyword. -/
def Repeats (all : List Token) (opens : Position → Bool) (first : Token) (stmt : Stmt)
    (ts : List Token) : Prop :=
  ∃ body, stmt.loopBody? = some body ∧ stmt.span.start = first.start ∧ Bodied all opens body ts

/-- The tokens of a statement tell of its loops, unless it is itself a loop without braces. -/
def Headed (all : List Token) (opens : Position → Bool) (stmt : Stmt) (ts : List Token) : Prop :=
  AllBraced all (listsOf stmt) → Counted opens (loopsOf opens · stmt) ts ∨ ∃ body ∈ stmt.loopBody?,
    Unbraced body ts

/-- The tokens of a statement: a loop in it that has braces was read with them. -/
structure Told (all : List Token) (opens : Position → Bool) (stmt : Stmt)
    (ts : List Token) : Prop where
  loops : stmt.Braced all → Tells all opens (loopsOf opens · stmt) (listsOf stmt) ts
  behind : ∀ t ∈ ts, t.kind = .lBrace → stmt.span.start.offset < t.stop.offset

theorem Tells.behind (h : Tells all opens loops within us) (calm : Token.Calm ts) :
    Tells all opens loops within (ts ++ us) := fun braced => (h braced).behind calm

theorem Tells.append (first : Tells all opens loops within ts)
    (second : Tells all opens more further us) :
    Tells all opens (fun around => loops around ++ more around) (within ++ further) (ts ++ us) := by
  intro braced
  have left : AllBraced all within := fun list member =>
    braced list (List.mem_append_left further member)
  have right : AllBraced all further := fun list member =>
    braced list (List.mem_append_right within member)
  exact (first left).append (second right)

theorem Unbraced.behind (h : Unbraced body us) (calm : ∀ t ∈ ts, t.kind ≠ .lBrace) :
    Unbraced body (ts ++ us) := by
  intro t member brace
  rcases List.mem_append.mp member with front | back
  · exact absurd brace (calm t front)
  · exact h t back brace

theorem unbraced_calm (calm : Token.Calm ts) : ∀ t ∈ ts, t.kind ≠ .lBrace := by
  intro t member brace
  have := calm t member
  rw [brace] at this
  cases this

theorem Bodied.behind (h : Bodied all opens body us) (calm : Token.Calm ts) :
    Bodied all opens body (ts ++ us) := by
  intro braced
  rcases h braced with block | ⟨counted, unbraced⟩
  · exact .inl (block.behind calm)
  · exact .inr ⟨counted.behind calm, unbraced.behind (unbraced_calm calm)⟩

theorem Bodied.tells (h : Bodied all opens body ts) :
    Tells all opens (loopsIn opens · body) (lists body) ts := by
  intro braced
  rcases h braced with block | ⟨counted, _⟩
  · exact block.counted
  · exact counted

theorem Repeats.behind (h : Repeats all opens first stmt us) (calm : Token.Calm ts) :
    Repeats all opens first stmt (ts ++ us) := by
  obtain ⟨body, loop, start, bodied⟩ := h
  exact ⟨body, loop, start, bodied.behind calm⟩

theorem Repeats.headed (h : Repeats all opens first stmt ts) (kind : first.kind.isLoop = true) :
    Headed all opens stmt (first :: ts) := by
  obtain ⟨body, loop, start, bodied⟩ := h
  intro braced
  rw [listsOf_eq loop] at braced
  rcases bodied braced with block | ⟨_, unbraced⟩
  · refine .inl ?_
    rw [loopsOf_eq loop, start]
    exact block.loop kind
  · have other : ∀ t ∈ [first], t.kind ≠ .lBrace := by
      intro t member brace
      rw [← List.mem_singleton.mp member, brace] at kind
      cases kind
    exact .inr ⟨body, loop, unbraced.behind other⟩

theorem Headed.behind (h : Headed all opens stmt us) (calm : Token.Calm ts) :
    Headed all opens stmt (ts ++ us) := by
  intro braced
  rcases h braced with counted | ⟨body, loop, unbraced⟩
  · exact .inl (counted.behind calm)
  · exact .inr ⟨body, loop, unbraced.behind (unbraced_calm calm)⟩

/-- Calm tokens in front make no difference to what is said of tokens. -/
def Lenient (G : β → List Token → Prop) : Prop := ∀ b ts us, Token.Calm ts → G b us → G b (ts ++ us)

theorem lenient_tells {loops : β → Nat → List (Position × Nat)} {within : β → List (List Stmt)} :
    Lenient fun b ts => Tells all opens (loops b) (within b) ts :=
  fun _ _ _ calm tells => tells.behind calm

theorem lenient_bodied : Lenient (Bodied all opens) := fun _ _ _ calm bodied => bodied.behind calm

theorem lenient_repeats : Lenient (Repeats all opens first) :=
  fun _ _ _ calm repeats => repeats.behind calm

theorem lenient_headed : Lenient (Headed all opens) := fun _ _ _ calm headed => headed.behind calm

end Meanings

section Fronts

variable {m : ParseM α} {f : α → ParseM β} {G : β → List Token → Prop} {R : α → State → Prop}

/-- Calm tokens in front make no difference to what the tokens behind them tell. -/
theorem takes_front (standing : Standing all s) (lenient : Lenient G)
    (h : Takes s m fun a ts t => (t.skipped = s.skipped ∧ Token.Calm ts) ∧ R a t)
    (rest : ∀ a t, Standing all t → R a t → Takes t (f a) fun b us u => Undropped t u (G b us)) :
    Takes s (m >>= f) fun b us u => Undropped s u (G b us) := by
  refine h.bind ?_
  rintro a ts t taken ⟨⟨same, calm⟩, known⟩
  refine (rest a t (standing.taken taken) known).weaken ?_
  intro b us u _ holds none
  obtain ⟨none', told⟩ := holds none
  exact ⟨same ▸ none', lenient b ts us calm told⟩

theorem CalmAt.front (h : CalmAt s m) (standing : Standing all s)
    (lenient : Lenient G)
    (rest : ∀ a t, Standing all t → Takes t (f a) fun b us u => Undropped t u (G b us)) :
    Takes s (m >>= f) fun b us u => Undropped s u (G b us) :=
  takes_front (R := fun _ _ => True) standing lenient (h.weaken fun _ _ _ _ calm => ⟨calm, trivial⟩)
    fun a t standing _ => rest a t standing

theorem Calm.front (h : Calm m) (standing : Standing all s)
    (lenient : Lenient G)
    (rest : ∀ a t, Standing all t → Takes t (f a) fun b us u => Undropped t u (G b us)) :
    Takes s (m >>= f) fun b us u => Undropped s u (G b us) :=
  (h s standing.orderly.closed).front standing lenient rest

end Fronts

end Parser

/-- The rules of a level give statements of whose loops the tokens tell. -/
structure Level.Nests (all : List Token) (opens : Position → Bool) (inner : Level) : Prop where
  stands : inner.Stands
  derived : inner.Derived
  returns : inner.Returns
  ifChain : ∀ s : State, Parser.Standing all s → s.peek.kind = .kwIf ∨ s.peek.kind = .kwElseIf →
    Takes s inner.ifChain fun chain ts t =>
      Parser.Undropped s t
        (Parser.Tells all opens (Stmt.loopsOfChain opens · chain) (Stmt.listsOfChain chain) ts)
  statement : ∀ s : State, Parser.Standing all s →
    Takes s inner.statement fun stmt ts t => Parser.Undropped s t (Parser.Told all opens stmt ts)

namespace Parser

open Stmt

variable {all : List Token} {opens : Position → Bool} {s t : State} {ts us : List Token}
  {inner : Level}

theorem recovered_told (h : inner.Nests all opens) (standing : Standing all s) :
    Takes s (recovered inner) fun stmt ts t =>
    Undropped s t (∃ x, stmt = some x ∧ Told all opens x ts) := by
  have inside : Takes s.begin (nested inner.statement) fun stmt ts t =>
      Undropped s t (Told all opens stmt ts) :=
    Takes.nested (h.statement _ standing.begin.deeper) fun _ _ _ _ => id
  refine takes_recovered h.returns (inside.weaken ?_) ?_
  · intro stmt _ _ _ told
    exact told.imp fun told => ⟨stmt, rfl, told⟩
  · intro e u ts _ _ none
    cases none

/-- Statements read so far, latest first. -/
structure Gathered (all : List Token) (opens : Position → Bool) (body : List Stmt)
    (ts : List Token) : Prop where
  loops : (∀ stmt ∈ body, stmt.Braced all ∧ AllBraced all (listsOf stmt)) →
    Counted opens (loopsIn opens · body.reverse) ts
  unbraced : Unbraced body ts

theorem gathered_nil : Gathered all opens [] [] :=
  ⟨fun _ => counted_calm .nil, List.forall_mem_nil _⟩

theorem Gathered.behind {body : List Stmt} (h : Gathered all opens body ts) (calm : Token.Calm us) :
    Gathered all opens body (ts ++ us) := by
  refine ⟨fun braced => (h.loops braced).before calm, ?_⟩
  intro t member brace
  rcases List.mem_append.mp member with front | back
  · exact h.unbraced t front brace
  · exact absurd brace (unbraced_calm calm t back)

theorem Gathered.push {body : List Stmt} {stmt : Stmt} (h : Gathered all opens body ts)
    (told : Told all opens stmt us) : Gathered all opens (stmt :: body) (ts ++ us) := by
  constructor
  · intro braced
    obtain ⟨here, inside⟩ := braced stmt List.mem_cons_self
    have front := h.loops fun other member => braced other (List.mem_cons_of_mem stmt member)
    have whole := front.append (told.loops here inside)
    simpa only [List.reverse_cons, loopsIn_append, loopsIn, List.append_nil] using whole
  · intro t member brace
    rcases List.mem_append.mp member with front | back
    · obtain ⟨other, older, start⟩ := h.unbraced t front brace
      exact ⟨other, List.mem_cons_of_mem stmt older, start⟩
    · exact ⟨stmt, List.mem_cons_self, told.behind t back brace⟩

theorem statementsUntil_tells (h : inner.Nests all opens) (stop : State → Bool)
    (standing : Standing all s) :
    Takes s (statementsUntil inner stop) fun body ts t => Undropped s t
      (Tells all opens (loopsIn opens · body) (lists body) ts ∧ Unbraced body ts) := by
  have link (body : List Stmt) (t : State) (standing : Standing all t) (ts : List Token) :
      Takes t (statementLink inner stop body) fun next us u =>
        Undropped t u (Gathered all opens body ts → Gathered all opens next.1 (ts ++ us)) := by
    refine Takes.bind (Calm.skipNewlines t standing.orderly.closed) ?_
    rintro _ ns u taken ⟨same, calm⟩
    apply takes_get
    split
    · refine takes_pure (undropped same fun gathered => ?_)
      rw [List.append_nil]
      exact gathered.behind calm
    · refine (recovered_told h (standing.taken taken)).bind ?_
      intro stmt us v _ told
      refine takes_pure fun none => ?_
      obtain ⟨none', x, rfl, read⟩ := told none
      refine ⟨same ▸ none', fun gathered => ?_⟩
      rw [List.append_nil, ← List.append_assoc]
      exact (gathered.behind calm).push read
  refine Takes.bind (Q := fun body ts t => Undropped s t (Gathered all opens body ts)) ?_ ?_
  · refine takes_loop (fun none => ⟨none, gathered_nil⟩) ?_
    intro body ts t taken gathered
    refine (link body t (standing.taken taken) ts).weaken ?_
    intro next us u _ step
    exact (gathered.trans step).imp fun ⟨before, goes⟩ => goes before
  · intro body ts t _ gathered
    refine takes_pure (gathered.imp fun gathered => ?_)
    rw [List.append_nil]
    constructor
    · intro braced
      have loops := gathered.loops fun stmt member => braced.of_lists (List.mem_reverse.mpr member)
      exact loops
    · intro t member brace
      obtain ⟨stmt, inside, start⟩ := gathered.unbraced t member brace
      exact ⟨stmt, List.mem_reverse.mpr inside, start⟩

theorem block_tells (h : inner.Nests all opens) (standing : Standing all s) :
    Takes s (block inner) fun body ts t =>
    Undropped s t (AllBraced all (lists body) → Blocked opens (loopsIn opens · body) ts) := by
  refine ((takes_expect standing.orderly.closed (by decide) _).quiet
    (returns_expect _ _).climbs).bind ?_
  rintro opening _ t taken ⟨same, _, rfl, begins⟩
  refine (statementsUntil_tells h _ (standing.taken taken)).bind ?_
  intro body ts u taken' told
  have closed := ((standing.taken taken).taken taken').orderly.closed
  refine ((takes_expect closed (by decide) _).quiet (returns_expect _ _).climbs).bind ?_
  rintro closing _ v _ ⟨same', _, rfl, ends⟩
  refine takes_pure fun none => ?_
  obtain ⟨none', tells, _⟩ := told (same' ▸ none)
  exact ⟨same ▸ none', fun braced => by simpa using (tells braced).block begins ends⟩

theorem body_bodied (h : inner.Nests all opens) (standing : Standing all s) :
    Takes s (body inner) fun body ts t => Undropped s t (Bodied all opens body ts) := by
  apply takes_get
  split
  · refine Calm.skipNewlines.front standing lenient_bodied ?_
    intro _ t standing
    exact (block_tells h standing).weaken fun _ _ _ _ told => told.imp fun block braced =>
      .inl (block braced)
  · exact (statementsUntil_tells h _ standing).weaken fun _ _ _ _ told =>
      told.imp fun ⟨tells, unbraced⟩ braced => .inr ⟨tells braced, unbraced⟩

end Parser

end ScriptLens
