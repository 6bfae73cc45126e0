import Mathlib.Data.List.Forall2
import LoxLang.Grammar.Program
import LoxLang.Proofs.Grammar.Machine

/-!
# Reading is derivation

Declarations and programs are read exactly as the grammar prescribes. A declaration is read from
the front of tokens if and only if those tokens begin with one (`declaration_eq_ok_iff`), whatever
follows: a declaration ends in its semicolon, so nothing behind it can change how it is read. Hence
a program is read without an error if and only if it is cut into declarations up to its end
(`program_eq_ok_iff`), and there is only one such cut (`cut_unique`).

The law is about programs that are read whole. Where and how a malformed one is reported is not
settled here.
-/

namespace LoxLang.Grammar

/-! ## Declarations -/

theorem expect_eq_ok_iff {kind : TokenKind} {fault : SyntaxFault} {tokens rest : List Token}
    {t : Token} :
    expect kind fault tokens = ⟨.ok t, rest⟩ ↔ tokens = t :: rest ∧ t.kind = kind := by
  cases tokens with
  | nil => simp [expect]
  | cons u us =>
    simp only [expect]
    split
    · rename_i same
      constructor
      · rintro ⟨⟩
        exact ⟨rfl, same⟩
      · rintro ⟨⟨⟩, _⟩
        rfl
    · rename_i differs
      constructor
      · rintro ⟨⟩
      · rintro ⟨⟨⟩, same⟩
        exact absurd same differs

/-- An expression and its semicolon are read from the front exactly if they stand there. -/
theorem closed_eq_ok_iff {clause : Clause} {make : Expr → Stmt} {tokens rest : List Token}
    {s : Stmt} :
    closed clause make tokens = ⟨.ok s, rest⟩ ↔ ∃ ts e semicolon, tokens = ts ++ semicolon :: rest ∧
      Derives .equality ts e ∧ semicolon.kind = .mark .semicolon ∧ s = make e := by
  constructor
  · intro read
    obtain ⟨e, between, first, next⟩ := of_andThen_ok read
    obtain ⟨semicolon, behind, second, done⟩ := of_andThen_ok next
    cases done
    obtain ⟨ts, rfl, derived⟩ := expression_sound first
    obtain ⟨rfl, closes⟩ := expect_eq_ok_iff.mp second
    exact ⟨ts, e, semicolon, rfl, derived, closes, rfl⟩
  · rintro ⟨ts, e, semicolon, rfl, derived, closes, rfl⟩
    have first : expression (ts ++ semicolon :: rest) = ⟨.ok e, semicolon :: rest⟩ :=
      expression_complete derived (by simp [closes, level]) (by simp [closes]) rest
    have second : expect (.mark .semicolon) (.semicolon clause) (semicolon :: rest) =
        ⟨.ok semicolon, rest⟩ := expect_eq_ok_iff.mpr ⟨rfl, closes⟩
    rw [closed, first, Reading.andThen, second, Reading.andThen]

/-- A variable declaration goes on after its name with an initial value or without one. -/
theorem initializer_eq_ok_iff {name : Token} {tokens rest : List Token} {s : Stmt} :
    initializer name tokens = ⟨.ok s, rest⟩ ↔
      (∃ equal ts e semicolon, tokens = equal :: (ts ++ semicolon :: rest) ∧
        equal.kind = .mark .equal ∧ Derives .equality ts e ∧
        semicolon.kind = .mark .semicolon ∧ s = .declare name (some e)) ∨
      (∃ semicolon, tokens = semicolon :: rest ∧ semicolon.kind = .mark .semicolon ∧
        s = .declare name none) := by
  constructor
  · intro read
    unfold initializer at read
    split at read
    · rename_i t after
      split at read
      · rename_i assigns
        obtain ⟨ts, e, semicolon, rfl, derived, closes, rfl⟩ := closed_eq_ok_iff.mp read
        exact .inl ⟨t, ts, e, semicolon, rfl, assigns, derived, closes, rfl⟩
      · obtain ⟨semicolon, behind, second, done⟩ := of_andThen_ok read
        cases done
        obtain ⟨same, closes⟩ := expect_eq_ok_iff.mp second
        exact .inr ⟨semicolon, same, closes, rfl⟩
    · cases read
  · rintro (⟨equal, ts, e, semicolon, rfl, assigns, derived, closes, rfl⟩ |
      ⟨semicolon, rfl, closes, rfl⟩)
    · rw [initializer, if_pos assigns]
      exact closed_eq_ok_iff.mpr ⟨ts, e, semicolon, rfl, derived, closes, rfl⟩
    · have second : expect (.mark .semicolon) (.semicolon .variableDeclaration)
          (semicolon :: rest) = ⟨.ok semicolon, rest⟩ := expect_eq_ok_iff.mpr ⟨rfl, closes⟩
      rw [initializer, if_neg (by simp [closes]), second, Reading.andThen]

/-- An expression begins with no word that begins a statement, so it is read as one. -/
theorem declaration_of_derives {c : Category} {ts : List Token} {e : Expr}
    (derived : Derives c ts e) (rest : List Token) :
    declaration (ts ++ rest) = closed .expression .expression (ts ++ rest) := by
  obtain ⟨t, us, rfl⟩ := List.exists_cons_of_ne_nil derived.ne_nil
  have inner := derived.inner t List.mem_cons_self
  have notVar : t.kind ≠ .keyword .varDecl := by
    intro kind
    have starts := inner.notStart
    rw [kind] at starts
    cases starts
  have notPrint : t.kind ≠ .keyword .print := by
    intro kind
    have starts := inner.notStart
    rw [kind] at starts
    cases starts
  rw [List.cons_append, declaration, if_neg notVar, if_neg notPrint]

/-- A variable declaration goes on behind its name. -/
theorem declaration_of_varDecl {word name : Token} (kind : word.kind = .keyword .varDecl)
    (named : name.kind = .identifier) (rest : List Token) :
    declaration (word :: name :: rest) = initializer name rest := by
  have first : expect .identifier .variableName (name :: rest) = ⟨.ok name, rest⟩ :=
    expect_eq_ok_iff.mpr ⟨rfl, named⟩
  rw [declaration, if_pos kind, first, Reading.andThen]

/-- A declaration is read from the front of tokens exactly if one stands there. -/
theorem declaration_eq_ok_iff {tokens rest : List Token} {s : Stmt} :
    declaration tokens = ⟨.ok s, rest⟩ ↔ ∃ ts, tokens = ts ++ rest ∧ IsDeclaration ts s := by
  constructor
  · intro read
    have plain {tokens : List Token}
        (read : closed .expression .expression tokens = ⟨.ok s, rest⟩) :
        ∃ ts, tokens = ts ++ rest ∧ IsDeclaration ts s := by
      obtain ⟨ts, e, semicolon, rfl, derived, closes, rfl⟩ := closed_eq_ok_iff.mp read
      exact ⟨ts ++ [semicolon], by simp, .statement (.expression derived closes)⟩
    unfold declaration at read
    split at read
    · rename_i t after
      split at read
      · rename_i isVar
        obtain ⟨name, between, first, next⟩ := of_andThen_ok read
        obtain ⟨rfl, named⟩ := expect_eq_ok_iff.mp first
        rcases initializer_eq_ok_iff.mp next with
          ⟨equal, ts, e, semicolon, rfl, assigns, derived, closes, rfl⟩ |
          ⟨semicolon, rfl, closes, rfl⟩
        · exact ⟨t :: name :: equal :: (ts ++ [semicolon]), by simp,
            .initialised isVar named assigns derived closes⟩
        · exact ⟨[t, name, semicolon], rfl, .bare isVar named closes⟩
      split at read
      · rename_i isPrint
        obtain ⟨ts, e, semicolon, rfl, derived, closes, rfl⟩ := closed_eq_ok_iff.mp read
        exact ⟨t :: (ts ++ [semicolon]), by simp, .statement (.print isPrint derived closes)⟩
      · exact plain read
    · exact plain read
  · rintro ⟨ts, rfl, declared⟩
    rcases declared with ⟨kind, named, assigns, derived, closes⟩ | ⟨kind, named, closes⟩ |
      ⟨⟨kind, derived, closes⟩ | ⟨derived, closes⟩⟩
    · simp only [List.cons_append, List.append_assoc]
      rw [declaration_of_varDecl kind named]
      exact initializer_eq_ok_iff.mpr (.inl ⟨_, _, _, _, rfl, assigns, derived, closes, rfl⟩)
    · simp only [List.cons_append, List.nil_append]
      rw [declaration_of_varDecl kind named]
      exact initializer_eq_ok_iff.mpr (.inr ⟨_, rfl, closes, rfl⟩)
    · simp only [List.cons_append, List.append_assoc]
      rw [declaration, if_neg (by simp [kind]), if_pos kind]
      exact closed_eq_ok_iff.mpr ⟨_, _, _, rfl, derived, closes, rfl⟩
    · rw [List.append_assoc, declaration_of_derives derived]
      exact closed_eq_ok_iff.mpr ⟨_, _, _, rfl, derived, closes, rfl⟩

/-! ## Programs -/

theorem program_of_atEnd {tokens : List Token} (done : atEnd tokens = true) :
    program tokens = ([], tokens) := by
  rw [program, if_pos done]

theorem program_of_not_atEnd {tokens : List Token} (more : atEnd tokens = false) :
    program tokens = ((attempt tokens).1 :: (program (attempt tokens).2).1,
      (program (attempt tokens).2).2) := by
  rw [program, if_neg (Bool.eq_false_iff.mp more)]

theorem result_attempt_eq_ok_iff {tokens : List Token} {s : Stmt} :
    (attempt tokens).1.result = .ok s ↔ declaration tokens = ⟨.ok s, (attempt tokens).2⟩ := by
  unfold attempt
  split
  · rename_i s' rest read
    simp [read]
  · rename_i fault rest read
    simp [read]

/-- A declaration in front is one attempt of its own, whatever follows. -/
theorem program_declaration_append {ts : List Token} {s : Stmt} (declared : IsDeclaration ts s)
    (rest : List Token) :
    program (ts ++ rest) = (⟨.ok s, []⟩ :: (program rest).1, (program rest).2) := by
  have read : declaration (ts ++ rest) = ⟨.ok s, rest⟩ :=
    declaration_eq_ok_iff.mpr ⟨ts, rfl, declared⟩
  have tried : attempt (ts ++ rest) = (⟨.ok s, []⟩, rest) := by rw [attempt, read]
  have more : atEnd (ts ++ rest) = false := by
    obtain ⟨t, us, rfl⟩ := List.exists_cons_of_ne_nil declared.ne_nil
    exact declared.not_isEnd t List.mem_cons_self
  rw [program_of_not_atEnd more, tried]

/-- Declarations in front are attempts of their own, whatever follows. -/
theorem program_declarations_append {slices : List (List Token)} {ss : List Stmt}
    (all : List.Forall₂ IsDeclaration slices ss) (rest : List Token) :
    program (slices.flatten ++ rest) =
      (ss.map (fun s => ⟨.ok s, []⟩) ++ (program rest).1, (program rest).2) := by
  induction all with
  | nil => rfl
  | cons declared _ ih =>
    rw [List.flatten_cons, List.append_assoc, program_declaration_append declared, ih]
    rfl

/-- A program is read whole exactly if it is cut into declarations up to its end. -/
theorem program_eq_ok_iff {tokens rest : List Token} {ss : List Stmt} :
    ((program tokens).1.map Attempt.result = ss.map .ok ∧ (program tokens).2 = rest) ↔
      ∃ slices, tokens = slices.flatten ++ rest ∧ List.Forall₂ IsDeclaration slices ss ∧
        atEnd rest = true := by
  constructor
  · rintro ⟨read, rfl⟩
    induction ss generalizing tokens with
    | nil =>
      cases more : atEnd tokens with
      | true =>
        rw [program_of_atEnd more]
        exact ⟨[], rfl, .nil, more⟩
      | false =>
        rw [program_of_not_atEnd more] at read
        cases read
    | cons s ss ih =>
      cases more : atEnd tokens with
      | true =>
        rw [program_of_atEnd more] at read
        cases read
      | false =>
        rw [program_of_not_atEnd more] at read ⊢
        obtain ⟨first, others⟩ := List.cons.inj read
        obtain ⟨ts, cut, declared⟩ := declaration_eq_ok_iff.mp (result_attempt_eq_ok_iff.mp first)
        obtain ⟨slices, spelled, all, done⟩ := ih others
        refine ⟨ts :: slices, ?_, .cons declared all, done⟩
        rw [List.flatten_cons, List.append_assoc, ← spelled]
        exact cut
  · rintro ⟨slices, rfl, all, done⟩
    rw [program_declarations_append all, program_of_atEnd done]
    exact ⟨by simp [Function.comp_def], rfl⟩

/-- There is at most one cut of tokens into declarations, whatever is declared. -/
theorem cut_unique {cut cut' : List (List Token)} {ss ss' : List Stmt}
    (all : List.Forall₂ IsDeclaration cut ss) (all' : List.Forall₂ IsDeclaration cut' ss')
    (same : cut.flatten = cut'.flatten) : cut = cut' ∧ ss = ss' := by
  induction all generalizing cut' ss' with
  | nil =>
    cases all' with
    | nil => exact ⟨rfl, rfl⟩
    | cons declared _ =>
      simp only [List.flatten_nil, List.flatten_cons] at same
      exact absurd (List.append_eq_nil_iff.mp same.symm).1 declared.ne_nil
  | @cons ts s cut ss declared _ ih =>
    cases all' with
    | nil =>
      simp only [List.flatten_nil, List.flatten_cons] at same
      exact absurd (List.append_eq_nil_iff.mp same).1 declared.ne_nil
    | @cons ts' s' cut' ss' declared' rest' =>
      simp only [List.flatten_cons] at same
      -- Both cuts begin with what is read from the front.
      have read : declaration (ts ++ cut.flatten) = ⟨.ok s, cut.flatten⟩ :=
        declaration_eq_ok_iff.mpr ⟨ts, rfl, declared⟩
      have read' : declaration (ts ++ cut.flatten) = ⟨.ok s', cut'.flatten⟩ :=
        declaration_eq_ok_iff.mpr ⟨ts', same, declared'⟩
      have front := read.symm.trans read'
      simp only [Reading.mk.injEq, Except.ok.injEq] at front
      obtain ⟨rfl, behind⟩ := front
      obtain ⟨rfl, rfl⟩ := ih rest' behind
      rw [List.append_cancel_right same]
      exact ⟨rfl, rfl⟩

/-- No end of the source stands within declarations. -/
theorem not_isEnd_of_declarations {slices : List (List Token)} {ss : List Stmt}
    (all : List.Forall₂ IsDeclaration slices ss) : ∀ t ∈ slices.flatten, t.isEnd = false := by
  induction all with
  | nil =>
    intro t mem
    cases mem
  | cons declared _ ih =>
    intro t mem
    rw [List.flatten_cons] at mem
    rcases List.mem_append.mp mem with first | later
    · exact declared.not_isEnd t first
    · exact ih t later

/-- What stands before the first end of the source is determined. -/
theorem eq_of_append_atEnd {us vs rest rest' : List Token} (before : ∀ t ∈ us, t.isEnd = false)
    (before' : ∀ t ∈ vs, t.isEnd = false) (done : atEnd rest = true) (done' : atEnd rest' = true)
    (same : us ++ rest = vs ++ rest') : us = vs := by
  have none {rest : List Token} (done : atEnd rest = true) :
      rest.takeWhile (fun t => !t.isEnd) = [] := by
    cases rest with
    | nil => rfl
    | cons t _ =>
      have ends : t.isEnd = true := done
      simp [ends]
  have cut {us rest : List Token} (before : ∀ t ∈ us, t.isEnd = false) (done : atEnd rest = true) :
      (us ++ rest).takeWhile (fun t => !t.isEnd) = us := by
    rw [List.takeWhile_append_of_pos (by simpa using before), none done, List.append_nil]
  rw [← cut before done, same, cut before' done']

/-- Tokens read whole up to the end of the source are cut into the declarations of what is read. -/
theorem exists_cut_of_results {tokens : List Token} {close : Token} {ss : List Stmt}
    (before : ∀ t ∈ tokens, t.isEnd = false) (closes : close.isEnd = true)
    (read : (attempts (tokens ++ [close])).map Attempt.result = ss.map .ok) :
    ∃ slices, tokens = slices.flatten ∧ List.Forall₂ IsDeclaration slices ss := by
  obtain ⟨slices, spelled, all, done⟩ := program_eq_ok_iff.mp ⟨read, rfl⟩
  have ends : atEnd [close] = true := closes
  exact ⟨slices, eq_of_append_atEnd before (not_isEnd_of_declarations all) ends done spelled, all⟩

/-- Tokens read whole up to the end of the source are read the same in front of any others. -/
theorem attempts_append_of_ok {tokens : List Token} {close : Token} {ss : List Stmt}
    (before : ∀ t ∈ tokens, t.isEnd = false) (closes : close.isEnd = true)
    (read : (attempts (tokens ++ [close])).map Attempt.result = ss.map .ok) (rest : List Token) :
    attempts (tokens ++ rest) = ss.map (fun s => ⟨.ok s, []⟩) ++ attempts rest := by
  obtain ⟨slices, rfl, all⟩ := exists_cut_of_results before closes read
  rw [attempts, program_declarations_append all]
  rfl

/-- Reading accepts **exactly the grammar**, with the tree that the grammar prescribes: tokens up to
the end of the source are read as statements without an error if and only if they are cut into
slices of which each is the declaration of its statement. Such a cut is the only one, and so are its
statements. -/
theorem attempts_eq_ok_iff {tokens : List Token} {close : Token}
    (inside : ∀ t ∈ tokens, t.kind ≠ .endOfFile) (closes : close.kind = .endOfFile) :
    (∀ ss : List Stmt, (attempts (tokens ++ [close])).map Attempt.result = ss.map .ok ↔
      ∃ slices : List (List Token), tokens = slices.flatten ∧
        List.Forall₂ IsDeclaration slices ss) ∧
    ∀ (cut cut' : List (List Token)) (ss ss' : List Stmt), tokens = cut.flatten →
      tokens = cut'.flatten → List.Forall₂ IsDeclaration cut ss →
      List.Forall₂ IsDeclaration cut' ss' → cut = cut' ∧ ss = ss' := by
  have before : ∀ t ∈ tokens, t.isEnd = false := by
    intro t mem
    simpa [Token.isEnd] using inside t mem
  have ends : atEnd [close] = true := by simp [atEnd, Token.isEnd, closes]
  refine ⟨fun ss => ⟨fun read => ?_, ?_⟩, ?_⟩
  · obtain ⟨slices, spelled, all, done⟩ := program_eq_ok_iff.mp ⟨read, rfl⟩
    exact ⟨slices, eq_of_append_atEnd before (not_isEnd_of_declarations all) ends done spelled, all⟩
  · rintro ⟨slices, rfl, all⟩
    exact (program_eq_ok_iff.mpr ⟨slices, rfl, all, ends⟩).1
  · intro cut cut' ss ss' spelled spelled' all all'
    exact cut_unique all all' (spelled.symm.trans spelled')

/-- Subtraction of names and a literal nests to the left. -/
theorem attempts_subtractions :
    (attempts ([⟨.keyword .print, "print", 1⟩, ⟨.identifier, "a", 1⟩, ⟨.mark .minus, "-", 1⟩,
        ⟨.identifier, "b", 1⟩, ⟨.mark .minus, "-", 2⟩, ⟨.number 1, "1", 2⟩,
        ⟨.mark .semicolon, ";", 2⟩] ++ [⟨.endOfFile, "", 2⟩])).map Attempt.result =
      [.ok (.print (.binary
        (.binary (.name ⟨.identifier, "a", 1⟩) ⟨.mark .minus, "-", 1⟩ (.name ⟨.identifier, "b", 1⟩))
        ⟨.mark .minus, "-", 2⟩ (.literal (.number 1))))] := by
  have inner : Derives .term
      [⟨.identifier, "a", 1⟩, ⟨.mark .minus, "-", 1⟩, ⟨.identifier, "b", 1⟩]
      (.binary (.name ⟨.identifier, "a", 1⟩) ⟨.mark .minus, "-", 1⟩
        (.name ⟨.identifier, "b", 1⟩)) :=
    .binary rfl rfl (by decide) (.loosen (by decide) (.name rfl)) (.loosen (by decide) (.name rfl))
  have outer : Derives .term
      [⟨.identifier, "a", 1⟩, ⟨.mark .minus, "-", 1⟩, ⟨.identifier, "b", 1⟩,
        ⟨.mark .minus, "-", 2⟩, ⟨.number 1, "1", 2⟩]
      (.binary _ ⟨.mark .minus, "-", 2⟩ (.literal (.number 1))) :=
    .binary rfl rfl (by decide) inner (.loosen (by decide) (.number rfl))
  exact ((attempts_eq_ok_iff (by simp) rfl).1 [_]).mpr
    ⟨[_], rfl, .cons (.statement (.print rfl (outer.loosen (by decide)) rfl)) .nil⟩

end LoxLang.Grammar
