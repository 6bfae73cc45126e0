import LoxLang.Proofs.Grammar.Derivation

/-!
# The machine reads the grammar

The stack machine of `LoxLang.Grammar.Expression` against the derivations of the grammar.

**Soundness** (`expression_sound`): what the machine reads is derived. The tokens taken so far are
cut along the open constructs (`Pending`), each construct keeping the derivation of what stands to
its left, and a completed operand keeps its own (`State.Reads`). One shift keeps this
(`State.Reads.shift`), so a whole run does (`State.Reads.runs`), whether it ends well or not.

**Completeness** (`expression_complete`): what is derived is read, up to a token that cannot go on
with an expression. A derivation run from any stack on which its category may stand ends with some
stack that is **as good as** the one it started from with the expression complete: closing either
of them at a level no tighter than the category gives the same (`readFrom_of_derives`). This is
where a chain stops: at a token of a looser level its own operators are closed first.

Both directions rest on one side condition, `Fits`: which category may stand on a stack.
-/

namespace LoxLang.Grammar

/-! ## Stacks and categories -/

/-- A category may be completed on a stack: below a binary operator it is a tighter one, and below a
prefix operator it has no binary operators. -/
def Fits (c : Category) : List Frame → Prop
  | .unary _ :: _ => 5 ≤ c.rank
  | .binary _ op :: _ => level op.kind < c.rank
  | _ => True

/-- No binary operator binds as tightly as a prefix operator. -/
theorem level_le_four (kind : TokenKind) : level kind ≤ 4 := by
  unfold level
  split <;> decide

/-- A unary may stand anywhere. -/
theorem fits_unary (frames : List Frame) : Fits .unary frames := by
  match frames with
  | [] => trivial
  | .unary _ :: _ => exact Nat.le_refl 5
  | .binary _ op :: _ => exact Nat.lt_succ_of_le (level_le_four op.kind)
  | .group :: _ => trivial

theorem Fits.tighten {c d : Category} {frames : List Frame} (fits : Fits c frames)
    (tighter : c.rank ≤ d.rank) : Fits d frames := by
  match frames with
  | [] => trivial
  | .unary _ :: _ => exact Nat.le_trans fits tighter
  | .binary _ _ :: _ => exact Nat.lt_of_lt_of_le fits tighter
  | .group :: _ => trivial

/-- Closing at the rank of a binary category leaves the stacks that it fits alone. -/
theorem collapse_of_fits {c : Category} (binary : c.rank ≤ 4) {frames : List Frame}
    (fits : Fits c frames) (e : Expr) : collapse c.rank e frames = (e, frames) := by
  match frames with
  | [] => rfl
  | .unary _ :: _ => exact absurd (Nat.le_trans fits binary) (by decide)
  | .binary _ op :: _ =>
    have looser : ¬ c.rank ≤ level op.kind := Nat.not_le.mpr fits
    simp only [collapse, if_neg looser]
  | .group :: _ => rfl

/-- What closing at a rank leaves open fits the category of that rank. -/
theorem fits_collapse (c : Category) (e : Expr) (frames : List Frame) :
    Fits c (collapse c.rank e frames).2 := by
  fun_induction collapse c.rank e frames with
  | case1 e op rest ih => exact ih
  | case2 e left op rest tight ih => exact ih
  | case3 e left op rest loose => exact Nat.lt_of_not_le loose
  | case4 e frames notUnary notBinary =>
    match frames with
    | [] => trivial
    | .unary op :: rest => exact (notUnary op rest rfl).elim
    | .binary left op :: rest => exact (notBinary left op rest rfl).elim
    | .group :: _ => trivial

/-! ## Soundness -/

/-- Tokens that a stack stands for, the outermost construct first: each construct with what stands
to its left. -/
inductive Pending : List Frame → List Token → Prop
  | nil : Pending [] []
  | group {frames : List Frame} {us : List Token} {t : Token} (opens : t.kind = .mark .leftParen)
      (below : Pending frames us) : Pending (.group :: frames) (us ++ [t])
  | unary {frames : List Frame} {us : List Token} {op : Token}
      (kind : op.kind = .mark .bang ∨ op.kind = .mark .minus) (below : Pending frames us) :
      Pending (.unary op :: frames) (us ++ [op])
  | binary {frames : List Frame} {us ls : List Token} {l : Expr} {op : Token} {c : Category}
      {m : Mark} (kind : op.kind = .mark m) (mem : m ∈ c.operators) (fits : Fits c frames)
      (left : Derives c ls l) (below : Pending frames us) :
      Pending (.binary l op :: frames) (us ++ (ls ++ [op]))

/-- Tokens that lead to a state. A completed operand is a primary: larger ones are put together only
when the next token calls for it. -/
def State.Reads (s : State) (us : List Token) : Prop :=
  match s.operand with
  | none => Pending s.frames us
  | some e => ∃ vs ts, us = vs ++ ts ∧ Pending s.frames vs ∧ Derives .primary ts e

/-- Closing constructs keeps the tokens they stand for. -/
theorem Pending.collapse {k : Nat} (bound : k ≤ 5) {frames : List Frame} {us : List Token}
    (pending : Pending frames us) :
    ∀ {d : Category} {ts : List Token} {e : Expr}, Derives d ts e → Fits d frames → k ≤ d.rank →
      ∃ us' ts' d', us' ++ ts' = us ++ ts ∧ Pending (collapse k e frames).2 us' ∧
        Derives d' ts' (collapse k e frames).1 ∧ k ≤ d'.rank := by
  induction pending with
  | nil =>
    intro d ts e derived _ tight
    exact ⟨[], ts, d, rfl, .nil, derived, tight⟩
  | group opens below _ =>
    intro d ts e derived _ tight
    exact ⟨_, ts, d, rfl, .group opens below, derived, tight⟩
  | @unary frames us op kind below ih =>
    intro d ts e derived fits _
    have whole : Derives .unary (op :: ts) (.unary op e) := .unary kind (derived.loosen fits)
    obtain ⟨us', ts', d', same, rest⟩ := ih whole (fits_unary frames) bound
    refine ⟨us', ts', d', ?_, rest⟩
    rw [same, List.append_assoc, List.singleton_append]
  | @binary frames us ls l op c m kind mem below_fits left below ih =>
    intro d ts e derived fits tight
    obtain ⟨binds, _⟩ := Category.level_of_mem_operators mem
    rw [← kind] at binds
    by_cases closes : k ≤ level op.kind
    · obtain ⟨next, step⟩ := Category.exists_next (c := c) (by omega)
      have up := Category.rank_next step
      have tighter : level op.kind < d.rank := fits
      have right : Derives next ts e := derived.loosen (by omega)
      have whole := Derives.binary step kind mem left right
      obtain ⟨us', ts', d', same, rest⟩ := ih whole below_fits (by omega)
      simp only [Grammar.collapse, if_pos closes]
      refine ⟨us', ts', d', ?_, rest⟩
      rw [same, List.append_assoc, List.append_assoc, List.singleton_append]
    · simp only [Grammar.collapse, if_neg closes]
      exact ⟨_, ts, d, rfl, .binary kind mem below_fits left below, derived, tight⟩

/-- What an atom stands for is derived as a primary. -/
theorem derives_of_atom? {t : Token} {e : Expr} (atom : atom? t = some e) :
    Derives .primary [t] e := by
  unfold atom? at atom
  split at atom
  · cases atom; exact .trueLit ‹_›
  · cases atom; exact .falseLit ‹_›
  · cases atom; exact .nilLit ‹_›
  · cases atom; exact .number ‹_›
  · cases atom; exact .string ‹_›
  · cases atom; exact .name ‹_›
  · cases atom

theorem isPrefixOperator_iff (kind : TokenKind) :
    isPrefixOperator kind = true ↔ kind = .mark .bang ∨ kind = .mark .minus := by
  unfold isPrefixOperator
  split
  · simp
  · simp
  · rename_i notBang notMinus
    simp only [Bool.false_eq_true, false_iff, not_or]
    exact ⟨notBang, notMinus⟩

/-- A token taken is one more token that leads to the state. -/
theorem State.Reads.shift {s s' : State} {us : List Token} {t : Token} (reads : s.Reads us)
    (shifted : s.shift t = some s') : s'.Reads (us ++ [t]) := by
  obtain ⟨frames, operand⟩ := s
  cases operand with
  | none =>
    have pending : Pending frames us := reads
    simp only [State.shift] at shifted
    split at shifted
    · rename_i isPrefix
      cases shifted
      exact .unary ((isPrefixOperator_iff _).mp isPrefix) pending
    split at shifted
    · rename_i opens
      cases shifted
      exact .group opens pending
    · obtain ⟨e, atom, rfl⟩ := Option.map_eq_some_iff.mp shifted
      exact ⟨us, [t], rfl, pending, derives_of_atom? atom⟩
  | some e =>
    obtain ⟨vs, ts, rfl, pending, derived⟩ := reads
    have fits : Fits .primary frames := (fits_unary frames).tighten (by decide)
    simp only [State.shift] at shifted
    split at shifted
    · rename_i binds
      cases shifted
      obtain ⟨c, m, kind, mem, same⟩ := Category.exists_of_level_pos binds
      have bound := level_le_four t.kind
      rw [← same] at bound ⊢
      have loose : c.rank ≤ Category.primary.rank := c.rank_le_six
      obtain ⟨us', ts', d, spelled, below, left, tight⟩ :=
        pending.collapse (Nat.le_succ_of_le bound) derived fits loose
      rw [← spelled, List.append_assoc]
      exact .binary kind mem (fits_collapse c e frames) (left.loosen tight) below
    split at shifted
    · rename_i closes
      split at shifted
      · rename_i inner rest closed
        cases shifted
        obtain ⟨us', ts', d, spelled, below, inside, _⟩ :=
          pending.collapse (Nat.zero_le 5) derived fits (Nat.zero_le _)
        rw [closed] at below inside
        cases below with
        | @group _ vs opening opens below =>
          have grouped := Derives.grouping opens closes (inside.loosen d.one_le_rank)
          refine ⟨vs, opening :: (ts' ++ [t]), ?_, below, grouped⟩
          rw [← spelled]
          simp
      · cases shifted
    · cases shifted

/-- A state that can stop stops with the expression of the tokens that lead to it. -/
theorem State.Reads.stop {s : State} {us : List Token} {e : Expr} (reads : s.Reads us)
    (stopped : s.stop = .ok e) : Derives .equality us e := by
  obtain ⟨frames, operand⟩ := s
  cases operand with
  | none => cases stopped
  | some a =>
    obtain ⟨vs, ts, rfl, pending, derived⟩ := reads
    have fits : Fits .primary frames := (fits_unary frames).tighten (by decide)
    obtain ⟨us', ts', d, spelled, below, whole, _⟩ :=
      pending.collapse (Nat.zero_le 5) derived fits (Nat.zero_le _)
    simp only [State.stop] at stopped
    split at stopped
    · rename_i closed
      cases stopped
      rw [closed] at below whole
      cases below
      rw [← spelled]
      exact whole.loosen d.one_le_rank
    · cases stopped

/-- A run ends in a state to which the tokens taken lead, however it ends. -/
theorem State.Reads.runs {s : State} {us : List Token} (reads : s.Reads us) (tokens : List Token) :
    ∃ (ts : List Token) (s' : State), tokens = ts ++ (Grammar.readFrom s tokens).rest ∧
      s'.Reads (us ++ ts) ∧ (Grammar.readFrom s tokens).result = s'.stop := by
  induction tokens generalizing s us with
  | nil => exact ⟨[], s, rfl, by rwa [List.append_nil], rfl⟩
  | cons t tokens ih =>
    rw [Grammar.readFrom]
    cases shifted : s.shift t with
    | none => exact ⟨[], s, rfl, by rwa [List.append_nil], rfl⟩
    | some s' =>
      obtain ⟨ts, last, spelled, reads', stopped⟩ := ih (reads.shift shifted)
      rw [List.append_assoc, List.singleton_append] at reads'
      exact ⟨t :: ts, last, congrArg (t :: ·) spelled, reads', stopped⟩

/-- A run takes the tokens of an expression. -/
theorem State.Reads.readFrom {s : State} {tokens rest us : List Token} {e : Expr}
    (reads : s.Reads us) (read : readFrom s tokens = ⟨.ok e, rest⟩) :
    ∃ ts, tokens = ts ++ rest ∧ Derives .equality (us ++ ts) e := by
  obtain ⟨ts, last, spelled, reads', stopped⟩ := reads.runs tokens
  rw [read] at spelled stopped
  exact ⟨ts, spelled, reads'.stop stopped.symm⟩

/-- What the machine reads is an expression of the grammar. -/
theorem expression_sound {tokens rest : List Token} {e : Expr}
    (read : expression tokens = ⟨.ok e, rest⟩) :
    ∃ ts, tokens = ts ++ rest ∧ Derives .equality ts e := by
  have start : State.start.Reads [] := Pending.nil
  exact start.readFrom read

/-! ## Completeness -/

/-- A token that can follow is taken. -/
theorem readFrom_cons_of_shift {s s' : State} {t : Token} (shifted : s.shift t = some s')
    (rest : List Token) : readFrom s (t :: rest) = readFrom s' rest := by
  rw [readFrom, shifted]

/-- A prefix operator opens a construct. -/
theorem shift_prefixOperator {op : Token} (kind : op.kind = .mark .bang ∨ op.kind = .mark .minus)
    (frames : List Frame) : State.shift ⟨frames, none⟩ op = some ⟨.unary op :: frames, none⟩ := by
  simp only [State.shift, (isPrefixOperator_iff _).mpr kind, ↓reduceIte]

/-- An atom completes an operand. -/
theorem shift_atom {t : Token} {e : Expr} (atom : atom? t = some e) (frames : List Frame) :
    State.shift ⟨frames, none⟩ t = some ⟨frames, some e⟩ := by
  have notPrefix : isPrefixOperator t.kind = false := by
    unfold atom? at atom
    split at atom <;> simp_all [isPrefixOperator]
  have notParen : t.kind ≠ .mark .leftParen := by
    intro kind
    simp [atom?, kind] at atom
  simp only [State.shift, notPrefix, if_neg notParen, atom, Option.map_some, Bool.false_eq_true,
    ↓reduceIte]

/-- A binary operator takes what its level closes as its left operand. -/
theorem shift_binary {op : Token} {m : Mark} {c : Category} (kind : op.kind = .mark m)
    (mem : m ∈ c.operators) {frames rest : List Frame} {e left : Expr}
    (closed : collapse c.rank e frames = (left, rest)) :
    State.shift ⟨frames, some e⟩ op = some ⟨.binary left op :: rest, none⟩ := by
  have binds : level op.kind = c.rank := kind ▸ (Category.level_of_mem_operators mem).1
  have pos : 0 < c.rank := c.one_le_rank
  simp only [State.shift, binds, if_pos pos, closed]

/-- A derivation run from a stack that its category fits ends as if its expression had been the
next operand on that stack. -/
theorem readFrom_of_derives {c : Category} {ts : List Token} {e : Expr} (derived : Derives c ts e) :
    ∀ (frames : List Frame) (rest : List Token), Fits c frames →
      ∃ frames' e', readFrom ⟨frames, none⟩ (ts ++ rest) = readFrom ⟨frames', some e'⟩ rest ∧
        ∀ k ≤ c.rank, collapse k e' frames' = collapse k e frames := by
  have single {t : Token} {e : Expr} (atom : atom? t = some e) (frames : List Frame)
      (rest : List Token) : ∃ frames' e',
        readFrom ⟨frames, none⟩ ([t] ++ rest) = readFrom ⟨frames', some e'⟩ rest ∧
        ∀ k ≤ Category.primary.rank, collapse k e' frames' = collapse k e frames :=
    ⟨frames, e, readFrom_cons_of_shift (shift_atom atom frames) rest, fun _ _ => rfl⟩
  induction derived with
  | descend step _ ih =>
    intro frames rest fits
    have up := Category.rank_next step
    obtain ⟨frames', e', read, same⟩ := ih frames rest (fits.tighten (by omega))
    exact ⟨frames', e', read, fun k hk => same k (by omega)⟩
  | @binary c next ls rs l r op m step kind mem _ _ ihl ihr =>
    intro frames rest fits
    obtain ⟨binds, bound⟩ := Category.level_of_mem_operators mem
    rw [← kind] at binds
    have up := Category.rank_next step
    obtain ⟨frames₁, l', read₁, same₁⟩ := ihl frames (op :: (rs ++ rest)) fits
    -- The operator closes the left chain and nothing below it.
    have closed : collapse c.rank l' frames₁ = (l, frames) :=
      (same₁ c.rank (Nat.le_refl _)).trans (collapse_of_fits bound fits l)
    have fits' : Fits next (.binary l op :: frames) := by
      show level op.kind < next.rank
      omega
    obtain ⟨frames₂, r', read₂, same₂⟩ := ihr (.binary l op :: frames) rest fits'
    refine ⟨frames₂, r', ?_, ?_⟩
    · rw [List.append_assoc, List.cons_append, read₁,
        readFrom_cons_of_shift (shift_binary kind mem closed), read₂]
    · intro k hk
      have closes : k ≤ level op.kind := binds ▸ hk
      rw [same₂ k (by omega), collapse, if_pos closes]
  | @unary ts e op kind _ ih =>
    intro frames rest _
    obtain ⟨frames', e', read, same⟩ := ih (.unary op :: frames) rest (fits_unary _)
    refine ⟨frames', e', ?_, ?_⟩
    · rw [List.cons_append, readFrom_cons_of_shift (shift_prefixOperator kind frames), read]
    · intro k hk
      rw [same k hk, collapse]
  | @grouping ts e opening closing opens closes _ ih =>
    intro frames rest _
    have opened : State.shift ⟨frames, none⟩ opening = some ⟨.group :: frames, none⟩ := by
      simp [State.shift, opens, isPrefixOperator]
    obtain ⟨frames', e', read, same⟩ := ih (.group :: frames) (closing :: rest) trivial
    have closed : State.shift ⟨frames', some e'⟩ closing = some ⟨frames, some (.grouping e)⟩ := by
      simp [State.shift, closes, level, same 0 (Nat.zero_le _), collapse]
    refine ⟨frames, .grouping e, ?_, fun _ _ => rfl⟩
    rw [List.cons_append, List.append_assoc, readFrom_cons_of_shift opened, List.singleton_append,
      read, readFrom_cons_of_shift closed]
  | number kind => exact fun frames rest _ => single (by simp [atom?, kind]) frames rest
  | string kind => exact fun frames rest _ => single (by simp [atom?, kind]) frames rest
  | trueLit kind => exact fun frames rest _ => single (by simp [atom?, kind]) frames rest
  | falseLit kind => exact fun frames rest _ => single (by simp [atom?, kind]) frames rest
  | nilLit kind => exact fun frames rest _ => single (by simp [atom?, kind]) frames rest
  | name kind => exact fun frames rest _ => single (by simp [atom?, kind]) frames rest

/-- An expression of the grammar is read up to a token that cannot go on with it. -/
theorem expression_complete {ts : List Token} {e : Expr} (derived : Derives .equality ts e)
    {t : Token} (loose : level t.kind = 0) (inside : t.kind ≠ .mark .rightParen)
    (rest : List Token) : expression (ts ++ t :: rest) = ⟨.ok e, t :: rest⟩ := by
  obtain ⟨frames, e', read, same⟩ := readFrom_of_derives derived [] (t :: rest) trivial
  have stuck : State.shift ⟨frames, some e'⟩ t = none := by
    simp [State.shift, loose, inside]
  have stopped : State.stop ⟨frames, some e'⟩ = .ok e := by
    simp [State.stop, same 0 (Nat.zero_le _), collapse]
  calc expression (ts ++ t :: rest)
      = readFrom ⟨frames, some e'⟩ (t :: rest) := read
    _ = ⟨.ok e, t :: rest⟩ := by rw [readFrom, stuck, stopped]

end LoxLang.Grammar
