import LoxLang.Diagnostic
import LoxLang.Grammar.Tree

/-!
# Reading expressions

Expressions are read by a machine with a stack. Its `State` is the stack of open
constructs and the operand just completed, if there is one; `shift` takes one
token, and `stop` says what has been read when no further token is taken. The
machine never looks past the next token and never gives one back.

Binary operators come in four levels and associate to the left: a new operator
closes the open ones that bind at least as tightly (`collapse`). A prefix
operator binds tighter than all of them.
-/

namespace LoxLang.Grammar

/-! ## Operators and atoms -/

/-- How tightly a kind binds as a binary operator: equality, comparison, sum,
product, from 1 up. No other kind is a binary operator, and they have level 0. -/
def level : TokenKind → Nat
  | .mark .bangEqual | .mark .equalEqual => 1
  | .mark .greater | .mark .greaterEqual | .mark .less | .mark .lessEqual => 2
  | .mark .minus | .mark .plus => 3
  | .mark .slash | .mark .star => 4
  | _ => 0

/-- Whether a kind is a prefix operator. -/
def isPrefixOperator : TokenKind → Bool
  | .mark .bang | .mark .minus => true
  | _ => false

/-- The expression that a token is on its own. -/
def atom? (t : Token) : Option Expr :=
  match t.kind with
  | .keyword .trueLit => some (.literal (.bool true))
  | .keyword .falseLit => some (.literal (.bool false))
  | .keyword .nilLit => some (.literal .nil)
  | .number value => some (.literal (.number value))
  | .string contents => some (.literal (.string contents))
  | .identifier => some (.name t)
  | _ => none

/-! ## The machine -/

/-- An open construct that awaits an operand. -/
inductive Frame where
  | unary (op : Token)
  | binary (left : Expr) (op : Token)
  /-- An opening parenthesis. -/
  | group

/-- The machine between two tokens: the open constructs, innermost first, and the
operand just completed, or none while one is awaited. -/
structure State where
  frames : List Frame
  operand : Option Expr

/-- The machine before the first token. -/
def State.start : State := ⟨[], none⟩

/-- Completes the open constructs that bind at least as tightly as a level around
an operand, up to the nearest parenthesis. -/
def collapse (least : Nat) (e : Expr) : List Frame → Expr × List Frame
  | .unary op :: rest => collapse least (.unary op e) rest
  | .binary left op :: rest =>
    if least ≤ level op.kind then collapse least (.binary left op e) rest
    else (e, .binary left op :: rest)
  | rest => (e, rest)

namespace State

/-- The state after a token, if the token can follow. -/
def shift (s : State) (t : Token) : Option State :=
  match s.operand with
  | none =>
    if isPrefixOperator t.kind then some ⟨.unary t :: s.frames, none⟩
    else if t.kind = .mark .leftParen then some ⟨.group :: s.frames, none⟩
    else (atom? t).map fun e => ⟨s.frames, some e⟩
  | some e =>
    if 0 < level t.kind then
      let (left, rest) := collapse (level t.kind) e s.frames
      some ⟨.binary left t :: rest, none⟩
    else if t.kind = .mark .rightParen then
      match collapse 0 e s.frames with
      | (inner, .group :: rest) => some ⟨rest, some (.grouping inner)⟩
      | _ => none
    else none

/-- What has been read when no further token is taken. -/
def stop (s : State) : Except SyntaxFault Expr :=
  match s.operand with
  | none => .error .expression
  | some e =>
    match collapse 0 e s.frames with
    | (whole, []) => .ok whole
    | _ => .error .closingParen

end State

/-! ## Readings -/

/-- The outcome of reading from a list of tokens, and the tokens not taken. A
fault concerns the first of these. -/
structure Reading (α : Type) where
  result : Except SyntaxFault α
  rest : List Token

/-- Goes on reading after a success. -/
def Reading.andThen {α β : Type} (r : Reading α) (next : α → List Token → Reading β) : Reading β :=
  match r with
  | ⟨.ok a, rest⟩ => next a rest
  | ⟨.error fault, rest⟩ => ⟨.error fault, rest⟩

/-- Takes tokens from a state on, as long as they can follow. -/
def readFrom (s : State) : List Token → Reading Expr
  | [] => ⟨s.stop, []⟩
  | t :: rest =>
    match s.shift t with
    | some s' => readFrom s' rest
    | none => ⟨s.stop, t :: rest⟩

/-- Reads the longest expression. -/
def expression (tokens : List Token) : Reading Expr :=
  readFrom .start tokens

/-- Takes one token of a kind, or misses it. -/
def expect (kind : TokenKind) (fault : SyntaxFault) : List Token → Reading Token
  | [] => ⟨.error fault, []⟩
  | t :: rest => if t.kind = kind then ⟨.ok t, rest⟩ else ⟨.error fault, t :: rest⟩

/-! ## Readings only take tokens -/

theorem rest_readFrom_suffix (s : State) (tokens : List Token) :
    (readFrom s tokens).rest <:+ tokens := by
  fun_induction readFrom s tokens with
  | case1 => exact List.suffix_refl _
  | case2 s t rest s' _ ih => exact ih.trans (List.suffix_cons t rest)
  | case3 => exact List.suffix_refl _

theorem rest_expression_suffix (tokens : List Token) : (expression tokens).rest <:+ tokens :=
  rest_readFrom_suffix .start tokens

theorem rest_expect_suffix (kind : TokenKind) (fault : SyntaxFault) (tokens : List Token) :
    (expect kind fault tokens).rest <:+ tokens := by
  unfold expect
  split
  · exact List.suffix_refl _
  · split
    · exact List.suffix_cons _ _
    · exact List.suffix_refl _

/-- Steps that only take tokens do so one after the other. -/
theorem rest_andThen_suffix {α β : Type} {r : Reading α} {next : α → List Token → Reading β}
    {tokens : List Token} (hr : r.rest <:+ tokens) (hnext : ∀ a rest, (next a rest).rest <:+ rest) :
    (r.andThen next).rest <:+ tokens := by
  obtain ⟨result, rest⟩ := r
  cases result with
  | error fault => exact hr
  | ok a => exact (hnext a rest).trans hr

/-- A success of two steps comes from a success of each. -/
theorem of_andThen_ok {α β : Type} {r : Reading α} {next : α → List Token → Reading β} {b : β}
    {rest : List Token} (h : r.andThen next = ⟨.ok b, rest⟩) :
    ∃ a between, r = ⟨.ok a, between⟩ ∧ next a between = ⟨.ok b, rest⟩ := by
  obtain ⟨result, between⟩ := r
  cases result with
  | error fault => cases h
  | ok a => exact ⟨a, between, rfl, h⟩

/-- A token taken is gone. -/
theorem length_expect_lt {kind : TokenKind} {fault : SyntaxFault} {tokens rest : List Token}
    {t : Token} (h : expect kind fault tokens = ⟨.ok t, rest⟩) : rest.length < tokens.length := by
  unfold expect at h
  split at h
  · cases h
  · split at h
    · cases h
      simp
    · cases h

end LoxLang.Grammar
