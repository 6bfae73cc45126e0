import LoxLang.Proofs.Execution.StaticErrors
import LoxLang.Proofs.Session.History

/-!
# Where a program can fail

Evaluation fails at an operator or at a name. These are the **sites** of a tree, here in the order
in which evaluation reaches them: the operands from left to right, then their operator. A fault is
met at a site of the tree that is evaluated (`Expr.of_evaluate_fault`), and if it names a variable,
then the one that stands there.

The trees of a program hold the tokens that they were read from. So a runtime error is about an
operator or an identifier among the tokens of its source (`of_runtime_mem_reports`).
-/

namespace LoxLang

/-! ## Sites -/

/-- The tokens at which an expression can fail, in the order in which they are reached. -/
def Expr.sites : Expr → List Token
  | .literal _ => []
  | .grouping inner => inner.sites
  | .name token => [token]
  | .unary op operand => operand.sites ++ [op]
  | .binary left op right => left.sites ++ right.sites ++ [op]

/-- The tokens at which a statement can fail. -/
def Stmt.sites : Stmt → List Token
  | .expression e | .print e | .declare _ (some e) => e.sites
  | .declare _ none => []

/-- Whether a cause can be met at a site: a variable is undefined only where its name stands. -/
def RuntimeFault.MetAt (site : Token) : RuntimeFault → Prop
  | .undefinedVariable name => name = site.lexeme
  | _ => True

/-- Whether a token is an operator or a name, as far as its kind tells. -/
def TokenKind.IsSite (kind : TokenKind) : Prop :=
  (∃ m, kind = .mark m) ∨ kind = .identifier

/-! ## Faults of a tree -/

variable {site : Token} {cause : RuntimeFault}

theorem of_onNumbers_fault {op : Token} {f : Float → Float → Value} {left right : Value}
    (fails : onNumbers op f left right = .error (.fault site cause)) :
    site = op ∧ cause = .operandsNotNumbers := by
  unfold onNumbers at fails
  split at fails <;> cases fails
  exact ⟨rfl, rfl⟩

theorem of_add_fault {op : Token} {left right : Value}
    (fails : add op left right = .error (.fault site cause)) :
    site = op ∧ cause = .operandsNotAddable := by
  unfold add at fails
  split at fails <;> cases fails
  exact ⟨rfl, rfl⟩

/-- A binary operator fails where it stands. -/
theorem of_applyBinary_fault {op : Token} {left right : Value}
    (fails : applyBinary op left right = .error (.fault site cause)) :
    site = op ∧ (cause = .operandsNotNumbers ∨ cause = .operandsNotAddable) := by
  unfold applyBinary at fails
  split at fails
  case h_2 =>
    obtain ⟨same, found⟩ := of_add_fault fails
    exact ⟨same, .inr found⟩
  all_goals first
    | cases fails
    | exact (of_onNumbers_fault fails).imp_right .inl

/-- A prefix operator fails where it stands. -/
theorem of_applyUnary_fault {op : Token} {operand : Value}
    (fails : applyUnary op operand = .error (.fault site cause)) :
    site = op ∧ cause = .operandNotNumber := by
  unfold applyUnary at fails
  split at fails <;> cases fails
  exact ⟨rfl, rfl⟩

/-- An expression fails at one of its sites. -/
theorem Expr.of_evaluate_fault {e : Expr} {b : Bindings}
    (fails : e.evaluate b = .error (.fault site cause)) : site ∈ e.sites ∧ cause.MetAt site := by
  induction e with
  | literal value => cases fails
  | grouping inner ih => exact ih fails
  | name token =>
    rw [Expr.evaluate] at fails
    split at fails <;> cases fails
    exact ⟨List.mem_singleton_self _, rfl⟩
  | unary op operand ih =>
    rw [Expr.evaluate] at fails
    cases computes : operand.evaluate b with
    | error failure =>
      rw [computes] at fails ih
      obtain ⟨mem, met⟩ := ih fails
      exact ⟨List.mem_append_left _ mem, met⟩
    | ok value =>
      rw [computes] at fails
      obtain ⟨rfl, rfl⟩ := of_applyUnary_fault fails
      exact ⟨List.mem_append_right _ (List.mem_singleton_self _), trivial⟩
  | binary left op right ihl ihr =>
    rw [Expr.evaluate] at fails
    cases computesLeft : left.evaluate b with
    | error failure =>
      rw [computesLeft] at fails ihl
      obtain ⟨mem, met⟩ := ihl fails
      exact ⟨List.mem_append_left _ (List.mem_append_left _ mem), met⟩
    | ok leftValue =>
      rw [computesLeft] at fails
      cases computesRight : right.evaluate b with
      | error failure =>
        rw [computesRight] at fails ihr
        obtain ⟨mem, met⟩ := ihr fails
        exact ⟨List.mem_append_left _ (List.mem_append_right _ mem), met⟩
      | ok rightValue =>
        rw [computesRight] at fails
        obtain ⟨rfl, found⟩ := of_applyBinary_fault fails
        refine ⟨List.mem_append_right _ (List.mem_singleton_self _), ?_⟩
        rcases found with rfl | rfl <;> trivial

/-- A statement fails at one of its sites. -/
theorem Stmt.of_value_fault {s : Stmt} {b : Bindings}
    (fails : s.value b = .error (.fault site cause)) : site ∈ s.sites ∧ cause.MetAt site := by
  match s with
  | .expression _ | .print _ | .declare _ (some _) => exact Expr.of_evaluate_fault fails
  | .declare _ none => cases fails

/-- Execution fails at a site of one of its statements. -/
theorem of_execute_fault {b : Bindings} {ss : List Stmt}
    (fails : (execute b ss).ending = .error (.fault site cause)) :
    (∃ s ∈ ss, site ∈ s.sites) ∧ cause.MetAt site := by
  rcases exists_completes b ss with ⟨_, -, ended⟩ |
    ⟨before, failing, rest, _, _, rfl, -, stops, ended⟩
  · cases ended.symm.trans fails
  · rw [Except.error.inj (ended.symm.trans fails)] at stops
    obtain ⟨mem, met⟩ := Stmt.of_value_fault stops
    exact ⟨⟨failing, List.mem_append_right _ List.mem_cons_self, mem⟩, met⟩

/-! ## Sites of what is read -/

namespace Grammar

/-- The sites of an expression are operators and names among its tokens. -/
theorem Derives.of_mem_sites {c : Category} {ts : List Token} {e : Expr}
    (derived : Derives c ts e) {t : Token} (mem : t ∈ e.sites) : t ∈ ts ∧ t.kind.IsSite := by
  induction derived with
  | descend _ _ ih => exact ih mem
  | @binary c next ls rs l r op m step kind mark left right ihl ihr =>
    rcases List.mem_append.mp mem with operands | last
    · rcases List.mem_append.mp operands with first | second
      · obtain ⟨inside, isSite⟩ := ihl first
        exact ⟨List.mem_append_left _ inside, isSite⟩
      · obtain ⟨inside, isSite⟩ := ihr second
        exact ⟨List.mem_append_right _ (List.mem_cons_of_mem _ inside), isSite⟩
    · cases List.mem_singleton.mp last
      exact ⟨List.mem_append_right _ List.mem_cons_self, .inl ⟨m, kind⟩⟩
  | @unary ts e op kind operand ih =>
    rcases List.mem_append.mp mem with inner | last
    · obtain ⟨inside, isSite⟩ := ih inner
      exact ⟨List.mem_cons_of_mem _ inside, isSite⟩
    · cases List.mem_singleton.mp last
      exact ⟨List.mem_cons_self, .inl (kind.elim (fun is => ⟨_, is⟩) fun is => ⟨_, is⟩)⟩
  | name kind =>
    cases List.mem_singleton.mp mem
    exact ⟨List.mem_singleton_self _, .inr kind⟩
  | grouping _ _ _ ih =>
    obtain ⟨inside, isSite⟩ := ih mem
    exact ⟨List.mem_cons_of_mem _ (List.mem_append_left _ inside), isSite⟩
  | _ => cases mem

/-- The sites of a statement are operators and names among its tokens. -/
theorem IsDeclaration.of_mem_sites {ts : List Token} {s : Stmt} (declared : IsDeclaration ts s)
    {t : Token} (mem : t ∈ s.sites) : t ∈ ts ∧ t.kind.IsSite := by
  cases declared with
  | initialised _ _ _ initial _ =>
    obtain ⟨inside, isSite⟩ := initial.of_mem_sites mem
    exact ⟨by simp [inside], isSite⟩
  | bare => cases mem
  | statement statement =>
    cases statement with
    | print _ value _ =>
      obtain ⟨inside, isSite⟩ := value.of_mem_sites mem
      exact ⟨by simp [inside], isSite⟩
    | expression value _ =>
      obtain ⟨inside, isSite⟩ := value.of_mem_sites mem
      exact ⟨by simp [inside], isSite⟩

end Grammar

/-! ## Runtime errors -/

/-- The runtime error of a source **points into it**: it is at an operator or an identifier among
its tokens, and names no variable but the one that stands there. -/
theorem of_runtime_mem_reports {b : Bindings} {source message : String}
    (mem : .runtime site message ∈ reports (run b source).events) :
    site ∈ Source.tokens (Source.scan source) ∧ site.kind.IsSite ∧
      ∃ cause, message = RuntimeFault.message cause ∧ cause.MetAt site := by
  by_cases formed : WellFormed source
  · obtain ⟨-, reported, -⟩ := run_of_wellFormed formed b
    rw [reported] at mem
    match finished : (execute b (statementsOf source)).ending with
    | .ok () | .error (.broken _) =>
      rw [finished] at mem
      cases mem
    | .error (.fault site' cause) =>
      rw [finished] at mem
      cases List.mem_singleton.mp mem
      obtain ⟨⟨s, among, isSite⟩, met⟩ := of_execute_fault finished
      obtain ⟨ts, within, declared⟩ := Grammar.exists_of_mem_statements among
      obtain ⟨inside, kind⟩ := declared.of_mem_sites isSite
      exact ⟨within inside, kind, cause, rfl, met⟩
  · rw [run_of_not_wellFormed formed] at mem
    rcases of_mem_reports_analyse mem with ⟨_, _, same, -⟩ | ⟨_, _, _, same⟩
    · cases same
    · cases same

end LoxLang
