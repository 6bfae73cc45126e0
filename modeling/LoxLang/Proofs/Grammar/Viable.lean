import LoxLang.Proofs.Grammar.Reading

/-!
# Where a declaration fails

A declaration that cannot be read fails at the **earliest token** at which that can be known. The
tokens taken before it begin a declaration of the grammar (`begins_of_error`), and with the token
itself they begin none (`not_prefix_of_error`).

The first half is a construction. Every state of the expression machine can be led to a whole
expression: an awaited operand is supplied, and the open parentheses are closed from the inside out
(`Pending.exists_completion`).

The second half is a refutation of every way to go on. A reader looks at no token behind the one at
which it stops (`Local`), and the grammar looks at nothing but kinds (`IsDeclaration.of_kinds`). So
what the reader refuses in front of one continuation it would refuse in front of all.
-/

namespace LoxLang.Grammar

/-! ## The grammar looks at kinds only -/

/-- Whether a token is an atom is a matter of its kind. -/
theorem exists_atom? {t u : Token} {e : Expr} (atom : atom? t = some e) (same : u.kind = t.kind) :
    ∃ e', atom? u = some e' := by
  unfold atom? at atom ⊢
  rw [same]
  split at atom
  case h_7 => cases atom
  all_goals exact ⟨_, rfl⟩

/-- Tokens with the kinds of one token are one token. -/
theorem eq_singleton_of_kinds {t : Token} {us : List Token}
    (same : us.map Token.kind = [t].map Token.kind) : ∃ u, us = [u] ∧ u.kind = t.kind := by
  obtain ⟨u, rest, rfl, kind, none⟩ := List.map_eq_cons_iff.mp same
  cases List.map_eq_nil_iff.mp none
  exact ⟨u, rfl, kind⟩

/-- Tokens of the same kinds are an expression of the same category. -/
theorem Derives.of_kinds {c : Category} {ts : List Token} {e : Expr} (derived : Derives c ts e) :
    ∀ {us : List Token}, us.map Token.kind = ts.map Token.kind → ∃ e', Derives c us e' := by
  have single {t : Token} {e : Expr} (atom : atom? t = some e) {us : List Token}
      (same : us.map Token.kind = [t].map Token.kind) : ∃ e', Derives .primary us e' := by
    obtain ⟨u, rfl, kind⟩ := eq_singleton_of_kinds same
    obtain ⟨e', atom'⟩ := exists_atom? atom kind
    exact ⟨e', derives_of_atom? atom'⟩
  induction derived with
  | descend step _ ih =>
    intro us same
    obtain ⟨e', part⟩ := ih same
    exact ⟨e', .descend step part⟩
  | binary step kind mem _ _ ihl ihr =>
    intro us same
    rw [List.map_append, List.map_cons] at same
    obtain ⟨ls, others, rfl, sameLeft, behind⟩ := List.map_eq_append_iff.mp same
    obtain ⟨op, rs, rfl, sameOp, sameRight⟩ := List.map_eq_cons_iff.mp behind
    obtain ⟨l, left⟩ := ihl sameLeft
    obtain ⟨r, right⟩ := ihr sameRight
    exact ⟨_, .binary step (sameOp.trans kind) mem left right⟩
  | unary kind _ ih =>
    intro us same
    obtain ⟨op, ts, rfl, sameOp, behind⟩ := List.map_eq_cons_iff.mp same
    obtain ⟨e, operand⟩ := ih behind
    exact ⟨_, .unary (sameOp ▸ kind) operand⟩
  | grouping opens closes _ ih =>
    intro us same
    obtain ⟨opening, others, rfl, sameOpening, behind⟩ := List.map_eq_cons_iff.mp same
    rw [List.map_append] at behind
    obtain ⟨ts, last, rfl, sameInner, sameLast⟩ := List.map_eq_append_iff.mp behind
    obtain ⟨closing, rfl, sameClosing⟩ := eq_singleton_of_kinds sameLast
    obtain ⟨e, inner⟩ := ih sameInner
    exact ⟨_, .grouping (sameOpening.trans opens) (sameClosing.trans closes) inner⟩
  | number kind => exact single (by simp [atom?, kind]; rfl)
  | string kind => exact single (by simp [atom?, kind]; rfl)
  | trueLit kind => exact single (by simp [atom?, kind]; rfl)
  | falseLit kind => exact single (by simp [atom?, kind]; rfl)
  | nilLit kind => exact single (by simp [atom?, kind]; rfl)
  | name kind => exact single (by simp [atom?, kind]; rfl)

/-- Tokens of the same kinds are a declaration, if perhaps of something else. -/
theorem IsDeclaration.of_kinds {ts us : List Token} {s : Stmt} (declared : IsDeclaration ts s)
    (same : us.map Token.kind = ts.map Token.kind) : ∃ s', IsDeclaration us s' := by
  -- An expression and its semicolon keep their kinds one by one.
  have clause {ts us : List Token} {e : Expr} {semicolon : Token} (value : Derives .equality ts e)
      (closes : semicolon.kind = .mark .semicolon)
      (same : us.map Token.kind = (ts ++ [semicolon]).map Token.kind) :
      ∃ vs e' semicolon', us = vs ++ [semicolon'] ∧ Derives .equality vs e' ∧
        semicolon'.kind = .mark .semicolon := by
    rw [List.map_append] at same
    obtain ⟨vs, last, rfl, sameValue, sameLast⟩ := List.map_eq_append_iff.mp same
    obtain ⟨semicolon', rfl, kind⟩ := eq_singleton_of_kinds sameLast
    obtain ⟨e', value'⟩ := value.of_kinds sameValue
    exact ⟨vs, e', semicolon', rfl, value', kind.trans closes⟩
  cases declared with
  | initialised kind named assigns initial closes =>
    obtain ⟨word, others, rfl, sameWord, behind⟩ := List.map_eq_cons_iff.mp same
    obtain ⟨name, others, rfl, sameName, behind⟩ := List.map_eq_cons_iff.mp behind
    obtain ⟨equal, others, rfl, sameEqual, behind⟩ := List.map_eq_cons_iff.mp behind
    obtain ⟨vs, e, semicolon, rfl, initial', closes'⟩ := clause initial closes behind
    exact ⟨_, .initialised (sameWord.trans kind) (sameName.trans named) (sameEqual.trans assigns)
      initial' closes'⟩
  | bare kind named closes =>
    obtain ⟨word, others, rfl, sameWord, behind⟩ := List.map_eq_cons_iff.mp same
    obtain ⟨name, others, rfl, sameName, behind⟩ := List.map_eq_cons_iff.mp behind
    obtain ⟨semicolon, rfl, sameSemicolon⟩ := eq_singleton_of_kinds behind
    exact ⟨_, .bare (sameWord.trans kind) (sameName.trans named) (sameSemicolon.trans closes)⟩
  | statement stated =>
    cases stated with
    | print kind value closes =>
      obtain ⟨word, others, rfl, sameWord, behind⟩ := List.map_eq_cons_iff.mp same
      obtain ⟨vs, e, semicolon, rfl, value', closes'⟩ := clause value closes behind
      exact ⟨_, .statement (.print (sameWord.trans kind) value' closes')⟩
    | expression value closes =>
      obtain ⟨vs, e, semicolon, rfl, value', closes'⟩ := clause value closes same
      exact ⟨_, .statement (.expression value' closes')⟩

/-! ## Every state can be completed -/

/-- Whatever stands on a stack, closing its parentheses behind an operand makes a whole
expression. -/
theorem Pending.exists_completion {frames : List Frame} {us : List Token}
    (pending : Pending frames us) :
    ∀ {d : Category} {ts : List Token} {e : Expr}, Derives d ts e → Fits d frames →
      ∃ more e', Derives .equality (us ++ (ts ++ more)) e' := by
  induction pending with
  | nil =>
    intro d ts e derived _
    refine ⟨[], e, ?_⟩
    rw [List.nil_append, List.append_nil]
    exact derived.loosen d.one_le_rank
  | @group frames us opening opens below ih =>
    intro d ts e derived _
    let closing : Token := ⟨.mark .rightParen, ")", 0⟩
    have grouped : Derives .primary (opening :: (ts ++ [closing])) (.grouping e) :=
      .grouping opens rfl (derived.loosen d.one_le_rank)
    obtain ⟨more, e', whole⟩ := ih grouped ((fits_unary frames).tighten (by decide))
    refine ⟨closing :: more, e', ?_⟩
    simpa only [List.append_assoc, List.cons_append, List.nil_append] using whole
  | @unary frames us op kind below ih =>
    intro d ts e derived fits
    obtain ⟨more, e', whole⟩ := ih (.unary kind (derived.loosen fits)) (fits_unary frames)
    refine ⟨more, e', ?_⟩
    simpa only [List.append_assoc, List.cons_append, List.nil_append] using whole
  | @binary frames us ls l op c m kind mem below_fits left below ih =>
    intro d ts e derived fits
    obtain ⟨binds, bound⟩ := Category.level_of_mem_operators mem
    obtain ⟨next, step⟩ := Category.exists_next (c := c) (by omega)
    have up := Category.rank_next step
    have tighter : level op.kind < d.rank := fits
    rw [kind] at tighter
    have right : Derives next ts e := derived.loosen (by omega)
    obtain ⟨more, e', whole⟩ := ih (.binary step kind mem left right) below_fits
    refine ⟨more, e', ?_⟩
    simpa only [List.append_assoc, List.cons_append, List.nil_append] using whole

/-- Tokens that lead to a state begin an expression. -/
theorem State.Reads.exists_completion {s : State} {us : List Token} (reads : s.Reads us) :
    ∃ more e, Derives .equality (us ++ more) e := by
  obtain ⟨frames, operand⟩ := s
  have fits : Fits .primary frames := (fits_unary frames).tighten (by decide)
  cases operand with
  | none =>
    have pending : Pending frames us := reads
    have supplied : Derives .primary [⟨.keyword .nilLit, "nil", 0⟩] (.literal .nil) := .nilLit rfl
    obtain ⟨more, e, whole⟩ := pending.exists_completion supplied fits
    exact ⟨_, e, whole⟩
  | some operand =>
    obtain ⟨vs, ts, rfl, pending, derived⟩ := reads
    obtain ⟨more, e, whole⟩ := pending.exists_completion derived fits
    exact ⟨more, e, by rwa [List.append_assoc]⟩

/-- What the machine takes begins an expression, whether it ends well or not. -/
theorem expression_begins (tokens : List Token) :
    ∃ us, tokens = us ++ (expression tokens).rest ∧ ∃ more e, Derives .equality (us ++ more) e := by
  have start : State.start.Reads [] := Pending.nil
  obtain ⟨us, s, spelled, reads, -⟩ := start.runs tokens
  exact ⟨us, spelled, reads.exists_completion⟩

/-! ## What a failed declaration has taken -/

/-- A failure of two steps is one of the first, or one of the second after a success. -/
theorem of_andThen_error {α β : Type} {r : Reading α} {next : α → List Token → Reading β}
    {fault : SyntaxFault} {rest : List Token} (h : r.andThen next = ⟨.error fault, rest⟩) :
    r = ⟨.error fault, rest⟩ ∨
      ∃ a between, r = ⟨.ok a, between⟩ ∧ next a between = ⟨.error fault, rest⟩ := by
  obtain ⟨result, between⟩ := r
  cases result with
  | error fault' =>
    cases h
    exact .inl rfl
  | ok a => exact .inr ⟨a, between, rfl, h⟩

/-- A token that is missed is not taken. -/
theorem expect_error {kind : TokenKind} {fault fault' : SyntaxFault} {tokens rest : List Token}
    (missed : expect kind fault tokens = ⟨.error fault', rest⟩) : tokens = rest := by
  unfold expect at missed
  split at missed
  · exact (Reading.mk.inj missed).2
  · split at missed
    · cases missed
    · exact (Reading.mk.inj missed).2

/-- What a failed clause has taken begins an expression. -/
theorem closed_error {clause : Clause} {make : Expr → Stmt} {tokens rest : List Token}
    {fault : SyntaxFault} (failed : closed clause make tokens = ⟨.error fault, rest⟩) :
    ∃ us, tokens = us ++ rest ∧ ∃ more e, Derives .equality (us ++ more) e := by
  obtain ⟨us, spelled, begins⟩ := expression_begins tokens
  refine ⟨us, ?_, begins⟩
  rcases of_andThen_error failed with first | ⟨e, between, first, next⟩
  · rwa [first] at spelled
  · rcases of_andThen_error next with second | ⟨semicolon, behind, -, done⟩
    · rw [first] at spelled
      rwa [← expect_error second]
    · cases done

/-- Tokens that begin a declaration which goes on behind them. -/
def Begins (us : List Token) : Prop :=
  ∃ more s, more ≠ [] ∧ IsDeclaration (us ++ more) s

/-- The kinds of what begins a declaration are a proper prefix of the kinds of one. -/
theorem Begins.kinds {us : List Token} (begins : Begins us) :
    ∃ ds s, IsDeclaration ds s ∧ us.map Token.kind <+: ds.map Token.kind ∧
      us.map Token.kind ≠ ds.map Token.kind := by
  obtain ⟨more, s, nonempty, declared⟩ := begins
  refine ⟨us ++ more, s, declared, ?_, ?_⟩
  · rw [List.map_append]
    exact List.prefix_append _ _
  · intro same
    have length := congrArg List.length same
    have pos := List.length_pos_iff.mpr nonempty
    simp only [List.length_map, List.length_append] at length
    omega

/-- What begins an expression begins a declaration, behind words that an expression can follow in
one. -/
theorem begins_of_expression {words us more : List Token} {e : Expr} {make : Expr → Stmt}
    (value : Derives .equality (us ++ more) e)
    (declares : ∀ {ts : List Token} {e : Expr} {semicolon : Token}, Derives .equality ts e →
      semicolon.kind = .mark .semicolon →
      IsDeclaration (words ++ (ts ++ [semicolon])) (make e)) : Begins (words ++ us) := by
  refine ⟨more ++ [⟨.mark .semicolon, ";", 0⟩], make e, by simp, ?_⟩
  simpa only [List.append_assoc] using declares value rfl

/-- What a failed variable declaration has taken behind its name. -/
theorem initializer_error {name : Token} {tokens rest : List Token} {fault : SyntaxFault}
    (failed : initializer name tokens = ⟨.error fault, rest⟩) :
    tokens = rest ∨ ∃ equal us, tokens = equal :: (us ++ rest) ∧ equal.kind = .mark .equal ∧
      ∃ more e, Derives .equality (us ++ more) e := by
  unfold initializer at failed
  split at failed
  · rename_i t after
    split at failed
    · rename_i assigns
      obtain ⟨us, rfl, begins⟩ := closed_error failed
      exact .inr ⟨t, us, rfl, assigns, begins⟩
    · rcases of_andThen_error failed with missed | ⟨semicolon, behind, -, done⟩
      · exact .inl (expect_error missed)
      · cases done
  · exact .inl (Reading.mk.inj failed).2

/-- What a failed declaration has taken begins one. -/
theorem begins_of_error {tokens rest : List Token} {fault : SyntaxFault}
    (failed : declaration tokens = ⟨.error fault, rest⟩) :
    ∃ us, tokens = us ++ rest ∧ Begins us := by
  have plain {tokens : List Token}
      (failed : closed .expression .expression tokens = ⟨.error fault, rest⟩) :
      ∃ us, tokens = us ++ rest ∧ Begins us := by
    obtain ⟨us, rfl, more, e, value⟩ := closed_error failed
    have begins : Begins ([] ++ us) := begins_of_expression value
      fun value closes => .statement (.expression value closes)
    exact ⟨us, rfl, begins⟩
  let name : Token := ⟨.identifier, "x", 0⟩
  let semicolon : Token := ⟨.mark .semicolon, ";", 0⟩
  unfold declaration at failed
  split at failed
  · rename_i t after
    split at failed
    · rename_i isVar
      rcases of_andThen_error failed with missed | ⟨name, between, found, next⟩
      · cases expect_error missed
        exact ⟨[t], rfl, [name, semicolon], _, by simp, .bare isVar rfl rfl⟩
      obtain ⟨rfl, named⟩ := expect_eq_ok_iff.mp found
      rcases initializer_error next with rfl | ⟨equal, us, rfl, assigns, more, e, value⟩
      · exact ⟨[t, name], rfl, [semicolon], _, by simp, .bare isVar named rfl⟩
      · exact ⟨[t, name, equal] ++ us, rfl, begins_of_expression value
          fun value closes => .initialised isVar named assigns value closes⟩
    split at failed
    · rename_i isPrint
      obtain ⟨us, rfl, more, e, value⟩ := closed_error failed
      exact ⟨[t] ++ us, rfl, begins_of_expression value
        fun value closes => .statement (.print isPrint value closes)⟩
    · exact plain failed
  · exact plain failed

/-! ## A reader looks at no token behind the one at which it stops -/

/-- A reading that only takes tokens, and that depends on the tokens it takes and on the first one
that it leaves. -/
structure Local {α : Type} (read : List Token → Reading α) : Prop where
  takes : ∀ tokens, (read tokens).rest <:+ tokens
  looks : ∀ {us : List Token} {t : Token} {rest : List Token} {result : Except SyntaxFault α},
    read (us ++ t :: rest) = ⟨result, t :: rest⟩ →
      ∀ rest', read (us ++ t :: rest') = ⟨result, t :: rest'⟩

/-- A reader that takes tokens does not leave one more than there are. -/
theorem Local.rest_ne_cons {α : Type} {read : List Token → Reading α} (isLocal : Local read)
    {tokens : List Token} {result : Except SyntaxFault α} {t : Token} :
    read tokens ≠ ⟨result, t :: tokens⟩ := by
  intro same
  have shorter := (isLocal.takes tokens).length_le
  rw [same, List.length_cons] at shorter
  omega

/-- The machine is a local reader from every state. -/
theorem local_readFrom (s : State) : Local (readFrom s) where
  takes := rest_readFrom_suffix s
  looks := by
    intro us
    induction us generalizing s with
    | nil =>
      intro t rest result stopped rest'
      simp only [List.nil_append, readFrom] at stopped ⊢
      cases shifted : s.shift t with
      | none =>
        rw [shifted] at stopped
        cases stopped
        rfl
      | some s' =>
        rw [shifted] at stopped
        have shorter := (rest_readFrom_suffix s' rest).length_le
        rw [show readFrom s' rest = _ from stopped, List.length_cons] at shorter
        omega
    | cons u us ih =>
      intro t rest result stopped rest'
      simp only [List.cons_append, readFrom] at stopped ⊢
      cases shifted : s.shift u with
      | none =>
        rw [shifted] at stopped
        have same := congrArg List.length (Reading.mk.inj stopped).2
        simp only [List.length_cons, List.length_append] at same
        omega
      | some s' =>
        rw [shifted] at stopped
        exact ih s' stopped rest'

/-- A reading that takes nothing is local. -/
theorem local_stay {α : Type} (result : Except SyntaxFault α) :
    Local fun tokens => ⟨result, tokens⟩ where
  takes := List.suffix_refl
  looks := by
    intro us t rest result stopped rest'
    obtain ⟨rfl, same⟩ := Reading.mk.inj stopped
    rw [List.append_left_eq_self.mp same, List.nil_append]

/-- A reader that looks at its first token, and then is local, is local. It may have taken that
token or not. -/
theorem Local.of_first {α : Type} {read : List Token → Reading α} (empty : (read []).rest = [])
    (first : ∀ t, (∃ next, Local next ∧ ∀ rest, read (t :: rest) = next rest) ∨
      ∃ next, Local next ∧ ∀ rest, read (t :: rest) = next (t :: rest)) : Local read where
  takes tokens := by
    cases tokens with
    | nil => simp [empty]
    | cons t rest =>
      rcases first t with ⟨next, isLocal, same⟩ | ⟨next, isLocal, same⟩
      · rw [same]
        exact (isLocal.takes rest).trans (List.suffix_cons t rest)
      · rw [same]
        exact isLocal.takes (t :: rest)
  looks := by
    intro us t rest result stopped rest'
    cases us with
    | nil =>
      rcases first t with ⟨next, isLocal, same⟩ | ⟨next, isLocal, same⟩
      · rw [List.nil_append, same] at stopped
        exact absurd stopped isLocal.rest_ne_cons
      · have stopped' : next ([] ++ t :: rest) = ⟨result, t :: rest⟩ :=
          (same rest).symm.trans stopped
        exact (same rest').trans (isLocal.looks stopped' rest')
    | cons u us =>
      rcases first u with ⟨next, isLocal, same⟩ | ⟨next, isLocal, same⟩
      · rw [List.cons_append, same] at stopped ⊢
        exact isLocal.looks stopped rest'
      · have stopped' : next (u :: us ++ t :: rest) = ⟨result, t :: rest⟩ :=
          (same _).symm.trans stopped
        exact (same _).trans (isLocal.looks stopped' rest')

theorem local_expect (kind : TokenKind) (fault : SyntaxFault) : Local (expect kind fault) := by
  refine .of_first rfl fun t => ?_
  by_cases same : t.kind = kind
  · refine .inl ⟨_, local_stay (.ok t), ?_⟩
    intro rest
    rw [expect, if_pos same]
  · refine .inr ⟨_, local_stay (.error fault), ?_⟩
    intro rest
    rw [expect, if_neg same]

/-- Local readers one after the other are a local reader. -/
theorem Local.andThen {α β : Type} {read : List Token → Reading α}
    {next : α → List Token → Reading β} (first : Local read) (second : ∀ a, Local (next a)) :
    Local fun tokens => (read tokens).andThen next where
  takes tokens := rest_andThen_suffix (first.takes tokens) fun a => (second a).takes
  looks := by
    intro us t rest result stopped rest'
    have taken := first.takes (us ++ t :: rest)
    cases found : read (us ++ t :: rest) with
    | mk outcome between =>
      rw [found] at stopped taken
      cases outcome with
      | error fault =>
        cases stopped
        rw [first.looks found rest']
        rfl
      | ok a =>
        -- The second reader starts in front of the token at which it stops, or right at it.
        obtain ⟨front, split⟩ := taken
        have left := (second a).takes between
        rw [show next a between = _ from stopped] at left
        obtain ⟨back, rfl⟩ := left
        rw [← List.append_assoc] at split
        obtain rfl := List.append_cancel_right split
        have same : read (front ++ back ++ t :: rest') = ⟨.ok a, back ++ t :: rest'⟩ := by
          cases back with
          | nil =>
            simp only [List.append_nil, List.nil_append] at found ⊢
            exact first.looks found rest'
          | cons u back =>
            simp only [List.append_assoc, List.cons_append] at found ⊢
            exact first.looks found (back ++ t :: rest')
        rw [same]
        exact (second a).looks stopped rest'

theorem local_closed (clause : Clause) (make : Expr → Stmt) : Local (closed clause make) :=
  (local_readFrom .start).andThen fun e =>
    (local_expect _ _).andThen fun _ => local_stay (.ok (make e))

theorem local_initializer (name : Token) : Local (initializer name) := by
  refine .of_first rfl fun t => ?_
  by_cases assigns : t.kind = .mark .equal
  · refine .inl ⟨_, local_closed .variableDeclaration fun e => .declare name (some e), ?_⟩
    intro rest
    rw [initializer, if_pos assigns]
  · refine .inr ⟨_, (local_expect (.mark .semicolon) (.semicolon .variableDeclaration)).andThen
      fun _ => local_stay (.ok (.declare name none)), ?_⟩
    intro rest
    rw [initializer, if_neg assigns]

/-- A declaration that is read or fails would be read or fail in the same way in front of any
others. -/
theorem local_declaration : Local declaration := by
  refine .of_first ?_ fun t => ?_
  · exact List.suffix_nil.mp (rest_declaration_suffix [])
  by_cases isVar : t.kind = .keyword .varDecl
  · refine .inl ⟨_, (local_expect .identifier .variableName).andThen local_initializer, ?_⟩
    intro rest
    rw [declaration, if_pos isVar]
  by_cases isPrint : t.kind = .keyword .print
  · refine .inl ⟨_, local_closed .value .print, ?_⟩
    intro rest
    rw [declaration, if_neg isVar, if_pos isPrint]
  · refine .inr ⟨_, local_closed .expression .expression, ?_⟩
    intro rest
    rw [declaration, if_neg isVar, if_neg isPrint]

/-! ## Nothing can go on at the token of a failure -/

/-- No declaration has the kinds of what a failed declaration has taken and of the token at which
it failed. -/
theorem not_prefix_of_error {us rest : List Token} {t : Token} {fault : SyntaxFault}
    (failed : declaration (us ++ t :: rest) = ⟨.error fault, t :: rest⟩) {ds : List Token}
    {s : Stmt} (declared : IsDeclaration ds s) :
    ¬ (us ++ [t]).map Token.kind <+: ds.map Token.kind := by
  rintro ⟨kinds, same⟩
  obtain ⟨front, more, rfl, sameFront, -⟩ := List.map_eq_append_iff.mp same.symm
  -- The declaration would be one with the tokens of the failure in front.
  have swapped : (us ++ t :: more).map Token.kind = (front ++ more).map Token.kind := by
    rw [List.append_cons, List.map_append, ← sameFront, List.map_append]
  obtain ⟨s', declared'⟩ := declared.of_kinds swapped
  have read : declaration (us ++ t :: more) = ⟨.ok s', []⟩ :=
    declaration_eq_ok_iff.mpr ⟨_, (List.append_nil _).symm, declared'⟩
  rw [local_declaration.looks failed more] at read
  cases read

end LoxLang.Grammar
