import LoxLang.Grammar.Program

/-!
# Lines do not matter to the reader

Tokens carry lines so that diagnostics can name them. Nothing in the reading of tokens looks at a
line: whatever a function does to the lines of the tokens, the attempts made on them are the same
up to that function. **Relabelling** applies such a function to every line that a value holds, and
each stage of the reader commutes with it, up to the law for whole programs (`attempts_relabel`).

Two uses of the law differ only in the function: adding a number to every line moves a source
behind another one, and a constant function forgets the lines.
-/

namespace LoxLang

/-! ## Relabelling -/

/-- A token on another line. -/
def Token.relabel (f : Nat → Nat) (t : Token) : Token := ⟨t.kind, t.lexeme, f t.line⟩

/-- An expression whose tokens are on other lines. -/
def Expr.relabel (f : Nat → Nat) : Expr → Expr
  | .binary left op right => .binary (left.relabel f) (op.relabel f) (right.relabel f)
  | .grouping inner => .grouping (inner.relabel f)
  | .literal value => .literal value
  | .unary op operand => .unary (op.relabel f) (operand.relabel f)
  | .name token => .name (token.relabel f)

/-- A statement whose tokens are on other lines. -/
def Stmt.relabel (f : Nat → Nat) : Stmt → Stmt
  | .expression e => .expression (e.relabel f)
  | .print e => .print (e.relabel f)
  | .declare name initial => .declare (name.relabel f) (initial.map (Expr.relabel f))

/-- A diagnostic about another line. -/
def Diagnostic.relabel (f : Nat → Nat) : Diagnostic → Diagnostic
  | .lexical line message => .lexical (f line) message
  | .syntactic token message => .syntactic (token.relabel f) message
  | .runtime token message => .runtime (token.relabel f) message
  | .inputEnded => .inputEnded
  | .io error => .io error

@[simp] theorem Token.relabel_kind (f : Nat → Nat) (t : Token) : (t.relabel f).kind = t.kind := rfl

@[simp] theorem Token.relabel_lexeme (f : Nat → Nat) (t : Token) :
    (t.relabel f).lexeme = t.lexeme := rfl

namespace Grammar

/-- An open construct whose tokens are on other lines. -/
def Frame.relabel (f : Nat → Nat) : Frame → Frame
  | .unary op => .unary (op.relabel f)
  | .binary left op => .binary (left.relabel f) (op.relabel f)
  | .group => .group

/-- A state whose tokens are on other lines. -/
def State.relabel (f : Nat → Nat) (s : State) : State :=
  ⟨s.frames.map (Frame.relabel f), s.operand.map (Expr.relabel f)⟩

/-- A reading of tokens on other lines, given what that does to its outcome. -/
def Reading.relabel {α β : Type} (f : Nat → Nat) (g : α → β) (r : Reading α) : Reading β :=
  ⟨r.result.map g, r.rest.map (Token.relabel f)⟩

/-- An attempt on tokens on other lines. -/
def Attempt.relabel (f : Nat → Nat) (a : Attempt) : Attempt where
  result := match a.result with
    | .ok s => .ok (s.relabel f)
    | .error d => .error (d.relabel f)
  skipped := a.skipped.map (Token.relabel f)

variable (f : Nat → Nat)

/-! ## Expressions -/

theorem atom?_relabel (t : Token) : atom? (t.relabel f) = (atom? t).map (Expr.relabel f) := by
  unfold atom?
  rw [Token.relabel_kind]
  split <;> rfl

theorem collapse_relabel (k : Nat) (e : Expr) (frames : List Frame) :
    collapse k (e.relabel f) (frames.map (Frame.relabel f)) =
      ((collapse k e frames).1.relabel f, (collapse k e frames).2.map (Frame.relabel f)) := by
  induction frames generalizing e with
  | nil => rfl
  | cons frame rest ih =>
    cases frame with
    | unary op => exact ih (.unary op e)
    | binary left op =>
      by_cases closes : k ≤ level op.kind
      · have closes' : k ≤ level (op.relabel f).kind := closes
        rw [List.map_cons, Frame.relabel, collapse, collapse, if_pos closes, if_pos closes']
        exact ih (.binary left op e)
      · have stays' : ¬ k ≤ level (op.relabel f).kind := closes
        rw [List.map_cons, Frame.relabel, collapse, collapse, if_neg closes, if_neg stays']
        rfl
    | group => rfl

theorem shift_relabel (s : State) (t : Token) :
    (s.relabel f).shift (t.relabel f) = (s.shift t).map (State.relabel f) := by
  obtain ⟨frames, operand⟩ := s
  cases operand with
  | none =>
    simp only [State.relabel, Option.map_none, State.shift, Token.relabel_kind, atom?_relabel]
    split
    · rfl
    split
    · rfl
    · cases atom? t <;> rfl
  | some e =>
    simp only [State.relabel, Option.map_some, State.shift, Token.relabel_kind, collapse_relabel]
    split
    · rfl
    split
    · obtain ⟨inner, rest⟩ := collapse 0 e frames
      match rest with
      | [] => rfl
      | .unary _ :: _ => rfl
      | .binary _ _ :: _ => rfl
      | .group :: _ => rfl
    · rfl

theorem stop_relabel (s : State) : (s.relabel f).stop = s.stop.map (Expr.relabel f) := by
  obtain ⟨frames, operand⟩ := s
  cases operand with
  | none => rfl
  | some e =>
    simp only [State.relabel, Option.map_some, State.stop, collapse_relabel]
    obtain ⟨whole, rest⟩ := collapse 0 e frames
    cases rest <;> rfl

theorem readFrom_relabel (s : State) (tokens : List Token) :
    readFrom (s.relabel f) (tokens.map (Token.relabel f)) =
      (readFrom s tokens).relabel f (Expr.relabel f) := by
  induction tokens generalizing s with
  | nil => simp only [List.map_nil, readFrom, stop_relabel, Reading.relabel]
  | cons t rest ih =>
    simp only [List.map_cons, readFrom, shift_relabel]
    cases s.shift t with
    | none => simp only [Option.map_none, stop_relabel, Reading.relabel, List.map_cons]
    | some s' => exact ih s'

theorem expression_relabel (tokens : List Token) :
    expression (tokens.map (Token.relabel f)) =
      (expression tokens).relabel f (Expr.relabel f) :=
  readFrom_relabel f .start tokens

/-! ## Declarations -/

/-- Steps that commute with relabelling do so one after the other. -/
theorem andThen_relabel {α α' β β' : Type} {g : α → α'} {h : β → β'} {r : Reading α}
    {next : α → List Token → Reading β} {next' : α' → List Token → Reading β'}
    (step : ∀ a rest, next' (g a) (rest.map (Token.relabel f)) = (next a rest).relabel f h) :
    (r.relabel f g).andThen next' = (r.andThen next).relabel f h := by
  obtain ⟨result, rest⟩ := r
  cases result with
  | error fault => rfl
  | ok a => exact step a rest

theorem expect_relabel (kind : TokenKind) (fault : SyntaxFault) (tokens : List Token) :
    expect kind fault (tokens.map (Token.relabel f)) =
      (expect kind fault tokens).relabel f (Token.relabel f) := by
  cases tokens with
  | nil => rfl
  | cons t rest =>
    by_cases same : t.kind = kind
    · have same' : (t.relabel f).kind = kind := same
      rw [List.map_cons, expect, expect, if_pos same, if_pos same']
      rfl
    · have differs' : ¬ (t.relabel f).kind = kind := same
      rw [List.map_cons, expect, expect, if_neg same, if_neg differs']
      rfl

theorem closed_relabel (clause : Clause) {make make' : Expr → Stmt}
    (made : ∀ e, make' (e.relabel f) = (make e).relabel f) (tokens : List Token) :
    closed clause make' (tokens.map (Token.relabel f)) =
      (closed clause make tokens).relabel f (Stmt.relabel f) := by
  unfold closed
  rw [expression_relabel]
  refine andThen_relabel f fun e rest => ?_
  rw [expect_relabel]
  refine andThen_relabel f fun _ rest => ?_
  rw [made]
  rfl

theorem initializer_relabel (name : Token) (tokens : List Token) :
    initializer (name.relabel f) (tokens.map (Token.relabel f)) =
      (initializer name tokens).relabel f (Stmt.relabel f) := by
  cases tokens with
  | nil => rfl
  | cons t rest =>
    by_cases assigns : t.kind = .mark .equal
    · have assigns' : (t.relabel f).kind = .mark .equal := assigns
      rw [List.map_cons, initializer, initializer, if_pos assigns, if_pos assigns']
      exact closed_relabel f _ (fun _ => rfl) rest
    · have ends' : ¬ (t.relabel f).kind = .mark .equal := assigns
      rw [List.map_cons, initializer, initializer, if_neg assigns, if_neg ends', ← List.map_cons,
        expect_relabel]
      exact andThen_relabel f fun _ _ => rfl

theorem declaration_relabel (tokens : List Token) :
    declaration (tokens.map (Token.relabel f)) =
      (declaration tokens).relabel f (Stmt.relabel f) := by
  cases tokens with
  | nil => rfl
  | cons t rest =>
    by_cases isVar : t.kind = .keyword .varDecl
    · have isVar' : (t.relabel f).kind = .keyword .varDecl := isVar
      rw [List.map_cons, declaration, declaration, if_pos isVar, if_pos isVar', expect_relabel]
      exact andThen_relabel f fun name rest => initializer_relabel f name rest
    have notVar' : ¬ (t.relabel f).kind = .keyword .varDecl := isVar
    rw [List.map_cons, declaration, declaration, if_neg isVar, if_neg notVar']
    by_cases isPrint : t.kind = .keyword .print
    · have isPrint' : (t.relabel f).kind = .keyword .print := isPrint
      rw [if_pos isPrint, if_pos isPrint']
      exact closed_relabel f _ (fun _ => rfl) rest
    · have notPrint' : ¬ (t.relabel f).kind = .keyword .print := isPrint
      rw [if_neg isPrint, if_neg notPrint']
      exact closed_relabel f _ (fun _ => rfl) (t :: rest)

/-! ## Programs -/

theorem atEnd_relabel (tokens : List Token) :
    atEnd (tokens.map (Token.relabel f)) = atEnd tokens := by
  cases tokens <;> rfl

theorem atStatement_relabel (tokens : List Token) :
    atStatement (tokens.map (Token.relabel f)) = atStatement tokens := by
  cases tokens <;> rfl

theorem recover_relabel (tokens : List Token) :
    recover (tokens.map (Token.relabel f)) =
      ((recover tokens).1.map (Token.relabel f), (recover tokens).2.map (Token.relabel f)) := by
  fun_induction recover tokens with
  | case1 => rfl
  | case2 t rest ends =>
    have ends' : (t.relabel f).isEnd = true := ends
    rw [List.map_cons, recover, if_pos ends']
    rfl
  | case3 t rest more stops =>
    have more' : ¬ (t.relabel f).isEnd = true := more
    rw [← atStatement_relabel f rest] at stops
    rw [List.map_cons, recover, if_neg more']
    exact if_pos stops
  | case4 t rest more goesOn skipped others found ih =>
    have more' : ¬ (t.relabel f).isEnd = true := more
    rw [← atStatement_relabel f rest] at goesOn
    rw [List.map_cons, recover, if_neg more', ih, found]
    exact if_neg goesOn

theorem diagnose_relabel (fault : SyntaxFault) (tokens : List Token) :
    diagnose fault (tokens.map (Token.relabel f)) = (diagnose fault tokens).relabel f := by
  cases tokens <;> rfl

theorem attempt_relabel (tokens : List Token) :
    attempt (tokens.map (Token.relabel f)) =
      ((attempt tokens).1.relabel f, (attempt tokens).2.map (Token.relabel f)) := by
  unfold attempt
  rw [declaration_relabel]
  obtain ⟨result, rest⟩ := declaration tokens
  cases result with
  | ok s => rfl
  | error fault =>
    simp only [Reading.relabel, Except.map, recover_relabel, diagnose_relabel, Attempt.relabel]

theorem program_relabel (tokens : List Token) :
    program (tokens.map (Token.relabel f)) =
      ((program tokens).1.map (Attempt.relabel f), (program tokens).2.map (Token.relabel f)) := by
  fun_induction program tokens with
  | case1 tokens done =>
    rw [program, if_pos (by rw [atEnd_relabel]; exact done)]
    rfl
  | case2 tokens more first others ih =>
    rw [program, if_neg (by rw [atEnd_relabel]; exact more), attempt_relabel]
    simp only [first] at ih
    simp only [ih, first, others, List.map_cons]

/-- The attempts on tokens on other lines are the attempts on the tokens, on other lines. -/
theorem attempts_relabel (tokens : List Token) :
    attempts (tokens.map (Token.relabel f)) = (attempts tokens).map (Attempt.relabel f) :=
  congrArg Prod.fst (program_relabel f tokens)

/-- Attempts that are all statements are all statements on other lines. -/
theorem results_relabel {attempts : List Attempt} {ss : List Stmt}
    (read : attempts.map Attempt.result = ss.map .ok) :
    (attempts.map (Attempt.relabel f)).map Attempt.result = (ss.map (Stmt.relabel f)).map .ok := by
  induction attempts generalizing ss with
  | nil =>
    cases ss with
    | nil => rfl
    | cons => cases read
  | cons a rest ih =>
    cases ss with
    | nil => cases read
    | cons s ss =>
      obtain ⟨first, others⟩ := List.cons.inj read
      simp only [List.map_cons, ih others, Attempt.relabel, first]

end Grammar

end LoxLang
