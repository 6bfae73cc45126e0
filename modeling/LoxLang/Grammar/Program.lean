import LoxLang.Grammar.Expression

/-!
# Reading programs

A program is a sequence of declarations up to the end of its tokens. A
declaration that cannot be read leaves a diagnostic in its place, and reading
resumes at the next place where a statement may begin (`recover`). So a program
gives one `Attempt` for each declaration tried, and reading it always ends.
-/

namespace LoxLang.Grammar

/-! ## Declarations -/

/-- An expression with the semicolon that closes a clause. -/
def closed (clause : Clause) (make : Expr → Stmt) (tokens : List Token) : Reading Stmt :=
  (expression tokens).andThen fun e rest =>
  (expect (.mark .semicolon) (.semicolon clause) rest).andThen fun _ rest =>
  ⟨.ok (make e), rest⟩

/-- The remainder of a variable declaration after its name. -/
def initializer (name : Token) : List Token → Reading Stmt
  | t :: rest =>
    if t.kind = .mark .equal then
      closed .variableDeclaration (fun e => .declare name (some e)) rest
    else
      (expect (.mark .semicolon) (.semicolon .variableDeclaration) (t :: rest)).andThen
        fun _ rest => ⟨.ok (.declare name none), rest⟩
  | [] => ⟨.error (.semicolon .variableDeclaration), []⟩

/-- A declaration: a variable, a print statement or an expression statement, told
apart by the first token. -/
def declaration : List Token → Reading Stmt
  | t :: rest =>
    if t.kind = .keyword .varDecl then
      (expect .identifier .variableName rest).andThen initializer
    else if t.kind = .keyword .print then closed .value .print rest
    else closed .expression .expression (t :: rest)
  | [] => closed .expression .expression []

theorem rest_closed_suffix (clause : Clause) (make : Expr → Stmt) (tokens : List Token) :
    (closed clause make tokens).rest <:+ tokens :=
  rest_andThen_suffix (rest_expression_suffix tokens) fun _ rest =>
    rest_andThen_suffix (rest_expect_suffix _ _ rest) fun _ rest => List.suffix_refl rest

theorem length_closed_lt {clause : Clause} {make : Expr → Stmt} {tokens rest : List Token}
    {s : Stmt} (h : closed clause make tokens = ⟨.ok s, rest⟩) : rest.length < tokens.length := by
  obtain ⟨e, between, he, hnext⟩ := of_andThen_ok h
  obtain ⟨t, behind, ht, hdone⟩ := of_andThen_ok hnext
  cases hdone
  have hle := (rest_expression_suffix tokens).length_le
  rw [he] at hle
  exact Nat.lt_of_lt_of_le (length_expect_lt ht) hle

theorem rest_initializer_suffix (name : Token) (tokens : List Token) :
    (initializer name tokens).rest <:+ tokens := by
  unfold initializer
  split
  · rename_i t rest
    split
    · exact (rest_closed_suffix _ _ rest).trans (List.suffix_cons t rest)
    · exact rest_andThen_suffix (rest_expect_suffix _ _ _) fun _ rest => List.suffix_refl rest
  · exact List.suffix_refl _

/-- A declaration only takes tokens. -/
theorem rest_declaration_suffix (tokens : List Token) : (declaration tokens).rest <:+ tokens := by
  unfold declaration
  split
  · rename_i t rest
    split
    · exact (rest_andThen_suffix (rest_expect_suffix _ _ rest) rest_initializer_suffix).trans
        (List.suffix_cons t rest)
    split
    · exact (rest_closed_suffix _ _ rest).trans (List.suffix_cons t rest)
    · exact rest_closed_suffix _ _ _
  · exact rest_closed_suffix _ _ _

/-- A declaration that is read takes at least one token. -/
theorem length_declaration_lt {tokens rest : List Token} {s : Stmt}
    (h : declaration tokens = ⟨.ok s, rest⟩) : rest.length < tokens.length := by
  unfold declaration at h
  split at h
  · rename_i t after
    split at h
    · obtain ⟨name, between, hname, hnext⟩ := of_andThen_ok h
      have hle := (rest_initializer_suffix name between).length_le
      rw [hnext] at hle
      have hlt := length_expect_lt hname
      simp only [List.length_cons] at hle ⊢
      omega
    split at h
    · exact Nat.lt_succ_of_lt (length_closed_lt h)
    · exact length_closed_lt h
  · exact length_closed_lt h

/-! ## Recovery -/

/-- Whether no declaration is left to read: the tokens have run out, or the one
that closes the source is next. -/
def atEnd : List Token → Bool
  | [] => true
  | t :: _ => t.isEnd

/-- Whether the next token begins a statement. -/
def atStatement : List Token → Bool
  | [] => false
  | t :: _ => t.kind.startsStatement

/-- Skips to the next place where a statement may begin: behind a semicolon, or in
front of a token that begins one. The first token is skipped in any case, and
the one that closes the source never. Gives the tokens skipped and the others. -/
def recover : List Token → List Token × List Token
  | [] => ([], [])
  | t :: rest =>
    if t.isEnd then ([], t :: rest)
    else if t.kind = .mark .semicolon || atStatement rest then ([t], rest)
    else
      let (skipped, others) := recover rest
      (t :: skipped, others)

theorem recover_suffix (tokens : List Token) : (recover tokens).2 <:+ tokens := by
  fun_induction recover tokens with
  | case1 => exact List.suffix_refl _
  | case2 => exact List.suffix_refl _
  | case3 t rest => exact List.suffix_cons t rest
  | case4 t rest _ _ skipped others heq ih =>
    rw [heq] at ih
    exact ih.trans (List.suffix_cons t rest)

/-- Recovery takes at least one token, unless it is at the end. -/
theorem length_recover_lt {tokens : List Token} (h : atEnd tokens = false) :
    (recover tokens).2.length < tokens.length := by
  fun_cases recover tokens with
  | case1 => cases h
  | case2 t rest hend => simp [atEnd, hend] at h
  | case3 => simp
  | case4 t rest _ _ skipped others heq =>
    have hle := (recover_suffix rest).length_le
    rw [heq] at hle
    exact Nat.lt_succ_of_le hle

/-- The diagnostic for a fault at the first of the tokens not taken. -/
def diagnose (fault : SyntaxFault) : List Token → Diagnostic
  | t :: _ => .syntactic t fault.message
  | [] => .inputEnded

/-! ## Programs -/

/-- One declaration tried: the statement or the diagnostic, and the tokens skipped
after a failure. -/
structure Attempt where
  result : Except Diagnostic Stmt
  skipped : List Token

/-- The first declaration tried, and the tokens from which reading goes on. -/
def attempt (tokens : List Token) : Attempt × List Token :=
  match declaration tokens with
  | ⟨.ok s, rest⟩ => (⟨.ok s, []⟩, rest)
  | ⟨.error fault, rest⟩ => (⟨.error (diagnose fault rest), (recover rest).1⟩, (recover rest).2)

/-- Every attempt takes tokens. -/
theorem length_attempt_lt {tokens : List Token} (h : atEnd tokens = false) :
    (attempt tokens).2.length < tokens.length := by
  unfold attempt
  split
  · rename_i s rest hok
    exact length_declaration_lt hok
  · rename_i fault rest herror
    have hsuffix := rest_declaration_suffix tokens
    rw [herror] at hsuffix
    rcases Nat.lt_or_eq_of_le hsuffix.length_le with hlt | heq
    · exact Nat.lt_of_le_of_lt (recover_suffix rest).length_le hlt
    · have hrest : rest = tokens := hsuffix.eq_of_length heq
      subst hrest
      exact length_recover_lt h

/-- The attempts on a list of tokens up to its end, and the tokens from the end
on. -/
def program (tokens : List Token) : List Attempt × List Token :=
  if atEnd tokens then ([], tokens)
  else
    let first := attempt tokens
    let others := program first.2
    (first.1 :: others.1, others.2)
termination_by tokens.length
decreasing_by exact length_attempt_lt (Bool.eq_false_iff.2 ‹_›)

/-- The attempts on a list of tokens, in order. -/
def attempts (tokens : List Token) : List Attempt :=
  (program tokens).1

end LoxLang.Grammar
