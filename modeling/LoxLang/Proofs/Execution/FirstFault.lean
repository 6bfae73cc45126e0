import LoxLang.Proofs.Execution.Operable
import LoxLang.Session

/-!
# The first fault

What an expression means is told here by rules, one for each way to have a value (`Denotes`), and
what can go wrong in it by rules of the same form: a subexpression is **faulty** if all its operands
have values and it has none (`Faulty`). Neither looks at an order of evaluation.

Evaluation is strict and goes from left to right: it reaches the subexpressions of an expression in
post-order (`Expr.parts`), the left operand, the right operand, then the node. It fails exactly if
one of them is faulty, at the first that is, and says what is wrong there; otherwise it ends with
what the expression denotes (`Expr.evaluate_first_fault`).

The law is about operable trees. In others an operator can fail that is none.
-/

namespace LoxLang

/-! ## Operators on values -/

/-- Whether a value is a number. -/
def Value.IsNumber (v : Value) : Prop := ∃ x, v = .number x

/-- Whether a value is a string. -/
def Value.IsString (v : Value) : Prop := ∃ text, v = .string text

/-- What an operator makes of two numbers: arithmetic and comparisons. The other operators do not
ask for numbers. -/
def Mark.onNumbers? : Mark → Option (Float → Float → Value)
  | .minus => some fun x y => .number (x - y)
  | .plus => some fun x y => .number (x + y)
  | .slash => some fun x y => .number (x / y)
  | .star => some fun x y => .number (x * y)
  | .greater => some fun x y => .bool (y < x)
  | .greaterEqual => some fun x y => .bool (y ≤ x)
  | .less => some fun x y => .bool (x < y)
  | .lessEqual => some fun x y => .bool (x ≤ y)
  | _ => none

/-- What a binary operator makes of two values. -/
inductive Joins (op : Token) : Value → Value → Value → Prop
  | numbers {m : Mark} {f : Float → Float → Value} {x y : Float} (kind : op.kind = .mark m)
      (takes : m.onNumbers? = some f) : Joins op (.number x) (.number y) (f x y)
  | strings {text text' : String} (kind : op.kind = .mark .plus) :
      Joins op (.string text) (.string text') (.string (text ++ text'))
  | equal {v w : Value} (kind : op.kind = .mark .equalEqual) : Joins op v w (.bool (v.equals w))
  | unequal {v w : Value} (kind : op.kind = .mark .bangEqual) : Joins op v w (.bool !v.equals w)

/-- What is wrong with two values for a binary operator. Nothing is for the two equalities. -/
inductive Clashes (op : Token) : Value → Value → String → Prop
  | numbers {m : Mark} {f : Float → Float → Value} {v w : Value} (kind : op.kind = .mark m)
      (takes : m.onNumbers? = some f) (notSum : m ≠ .plus)
      (other : ¬ (v.IsNumber ∧ w.IsNumber)) : Clashes op v w "Operands must be numbers."
  | sum {v w : Value} (kind : op.kind = .mark .plus) (notNumbers : ¬ (v.IsNumber ∧ w.IsNumber))
      (notStrings : ¬ (v.IsString ∧ w.IsString)) :
      Clashes op v w "Operands must be two numbers or two strings."

theorem applyBinary_plus {op : Token} (kind : op.kind = .mark .plus) (v w : Value) :
    applyBinary op v w = add op v w := by
  rw [applyBinary, kind]

/-- All operators that take numbers, but for the sum, take nothing else. -/
theorem applyBinary_of_onNumbers? {op : Token} {m : Mark} {f : Float → Float → Value}
    (kind : op.kind = .mark m) (takes : m.onNumbers? = some f) (notSum : m ≠ .plus) (v w : Value) :
    applyBinary op v w = onNumbers op f v w := by
  rw [applyBinary, kind]
  cases m <;> first
    | exact absurd rfl notSum
    | cases takes <;> rfl

/-- Values that are not both numbers are refused where numbers are asked for. -/
theorem onNumbers_of_not {v w : Value} (other : ¬ (v.IsNumber ∧ w.IsNumber)) (op : Token)
    (f : Float → Float → Value) :
    onNumbers op f v w = .error (.fault op .operandsNotNumbers) := by
  unfold onNumbers
  split
  · exact absurd ⟨⟨_, rfl⟩, ⟨_, rfl⟩⟩ other
  · rfl

theorem add_of_not {v w : Value} (notNumbers : ¬ (v.IsNumber ∧ w.IsNumber))
    (notStrings : ¬ (v.IsString ∧ w.IsString)) (op : Token) :
    add op v w = .error (.fault op .operandsNotAddable) := by
  unfold add
  split
  · exact absurd ⟨⟨_, rfl⟩, ⟨_, rfl⟩⟩ notNumbers
  · exact absurd ⟨⟨_, rfl⟩, ⟨_, rfl⟩⟩ notStrings
  · rfl

theorem Joins.applyBinary {op : Token} {v w u : Value} (joins : Joins op v w u) :
    applyBinary op v w = .ok u := by
  cases joins with
  | @numbers m f x y kind takes =>
    by_cases sum : m = .plus
    · subst sum
      cases takes
      rw [applyBinary_plus kind]
      rfl
    · rw [applyBinary_of_onNumbers? kind takes sum]
      rfl
  | strings kind =>
    rw [applyBinary_plus kind]
    rfl
  | equal kind => rw [LoxLang.applyBinary, kind]
  | unequal kind => rw [LoxLang.applyBinary, kind]

theorem Clashes.applyBinary {op : Token} {v w : Value} {message : String}
    (clashes : Clashes op v w message) :
    ∃ cause, applyBinary op v w = .error (.fault op cause) ∧ cause.message = message := by
  cases clashes with
  | numbers kind takes notSum other =>
    rw [applyBinary_of_onNumbers? kind takes notSum]
    exact ⟨_, onNumbers_of_not other op _, rfl⟩
  | sum kind notNumbers notStrings =>
    rw [applyBinary_plus kind]
    exact ⟨_, add_of_not notNumbers notStrings op, rfl⟩

/-- An operator of the grammar makes something of two values, or something is wrong with them. -/
theorem joins_or_clashes {op : Token} {c : Grammar.Category} {m : Mark} (kind : op.kind = .mark m)
    (mem : m ∈ c.operators) (v w : Value) :
    (∃ u, Joins op v w u) ∨ ∃ message, Clashes op v w message := by
  by_cases equal : m = .equalEqual
  · exact .inl ⟨_, .equal (equal ▸ kind)⟩
  by_cases unequal : m = .bangEqual
  · exact .inl ⟨_, .unequal (unequal ▸ kind)⟩
  obtain ⟨f, takes⟩ : ∃ f, m.onNumbers? = some f := by
    cases c <;> simp only [Grammar.Category.operators, List.mem_cons, List.not_mem_nil,
      or_false] at mem
    case equality => rcases mem with rfl | rfl <;> contradiction
    case comparison => rcases mem with rfl | rfl | rfl | rfl <;> exact ⟨_, rfl⟩
    case term => rcases mem with rfl | rfl <;> exact ⟨_, rfl⟩
    case factor => rcases mem with rfl | rfl <;> exact ⟨_, rfl⟩
  by_cases numbers : v.IsNumber ∧ w.IsNumber
  · obtain ⟨⟨x, rfl⟩, ⟨y, rfl⟩⟩ := numbers
    exact .inl ⟨_, .numbers kind takes⟩
  by_cases sum : m = .plus
  · subst sum
    by_cases strings : v.IsString ∧ w.IsString
    · obtain ⟨⟨text, rfl⟩, ⟨text', rfl⟩⟩ := strings
      exact .inl ⟨_, .strings kind⟩
    · exact .inr ⟨_, .sum kind numbers strings⟩
  · exact .inr ⟨_, .numbers kind takes sum numbers⟩

/-! ## Expressions -/

/-- What an expression denotes under bindings. -/
inductive Denotes (b : Bindings) : Expr → Value → Prop
  | literal {v : Value} : Denotes b (.literal v) v
  | grouping {e : Expr} {v : Value} (inner : Denotes b e v) : Denotes b (.grouping e) v
  | name {t : Token} {v : Value} (bound : b.get? t.lexeme = some v) : Denotes b (.name t) v
  | negation {op : Token} {e : Expr} {x : Float} (kind : op.kind = .mark .minus)
      (operand : Denotes b e (.number x)) : Denotes b (.unary op e) (.number (-x))
  | complement {op : Token} {e : Expr} {v : Value} (kind : op.kind = .mark .bang)
      (operand : Denotes b e v) : Denotes b (.unary op e) (.bool !v.isTruthy)
  | binary {op : Token} {l r : Expr} {v w u : Value} (left : Denotes b l v)
      (right : Denotes b r w) (joins : Joins op v w u) : Denotes b (.binary l op r) u

/-- An expression that is **faulty** itself: its operands have values and it has none. A fault has
its site, the operator or the name of the expression, and says what is wrong there. -/
inductive Faulty (b : Bindings) : Expr → Token → String → Prop
  | unbound {t : Token} (free : b.get? t.lexeme = none) :
      Faulty b (.name t) t ("Undefined variable '" ++ t.lexeme ++ "'.")
  | negation {op : Token} {e : Expr} {v : Value} (kind : op.kind = .mark .minus)
      (operand : Denotes b e v) (other : ¬ v.IsNumber) :
      Faulty b (.unary op e) op "Operand must be a number."
  | binary {op : Token} {l r : Expr} {v w : Value} {message : String} (left : Denotes b l v)
      (right : Denotes b r w) (clashes : Clashes op v w message) :
      Faulty b (.binary l op r) op message

/-- Whether an expression is faulty itself, in whatever way. -/
def Expr.IsFaulty (b : Bindings) (e : Expr) : Prop :=
  ∃ site message, Faulty b e site message

theorem Denotes.evaluate {b : Bindings} {e : Expr} {v : Value} (denotes : Denotes b e v) :
    e.evaluate b = .ok v := by
  induction denotes with
  | literal => rfl
  | grouping _ ih => exact ih
  | name bound => simp only [Expr.evaluate, bound]
  | negation kind _ ih => simp only [Expr.evaluate, ih, applyUnary, kind]
  | complement kind _ ih => simp only [Expr.evaluate, ih, applyUnary, kind]
  | binary _ _ joins ihl ihr => simp only [Expr.evaluate, ihl, ihr, joins.applyBinary]

theorem Faulty.evaluate {b : Bindings} {e : Expr} {site : Token} {message : String}
    (faulty : Faulty b e site message) :
    ∃ cause, e.evaluate b = .error (.fault site cause) ∧ cause.message = message := by
  cases faulty with
  | unbound free => exact ⟨.undefinedVariable _, by simp only [Expr.evaluate, free], rfl⟩
  | @negation op e v kind operand other =>
    refine ⟨.operandNotNumber, ?_, rfl⟩
    simp only [Expr.evaluate, operand.evaluate, applyUnary, kind]
    cases v with
    | number x => exact absurd ⟨x, rfl⟩ other
    | _ => rfl
  | binary left right clashes =>
    obtain ⟨cause, fails, wording⟩ := clashes.applyBinary
    exact ⟨cause, by simp only [Expr.evaluate, left.evaluate, right.evaluate, fails], wording⟩

/-- What denotes something is not faulty itself. -/
theorem Denotes.not_isFaulty {b : Bindings} {e : Expr} {v : Value} (denotes : Denotes b e v) :
    ¬ e.IsFaulty b := by
  rintro ⟨site, message, faulty⟩
  obtain ⟨cause, fails, -⟩ := faulty.evaluate
  rw [denotes.evaluate] at fails
  cases fails

/-- The subexpressions of an expression in post-order, itself the last. -/
def Expr.parts : Expr → List Expr
  | .literal v => [.literal v]
  | .name t => [.name t]
  | .grouping e => e.parts ++ [.grouping e]
  | .unary op e => e.parts ++ [.unary op e]
  | .binary l op r => l.parts ++ (r.parts ++ [.binary l op r])

/-- The fault of the first subexpression in post-order that is faulty. -/
def Expr.FirstFault (b : Bindings) (e : Expr) (site : Token) (message : String) : Prop :=
  ∃ before part after, e.parts = before ++ part :: after ∧ (∀ p ∈ before, ¬ p.IsFaulty b) ∧
    Faulty b part site message

/-- A first fault is still the first with sound expressions in front of it, and with others
behind. -/
theorem Expr.FirstFault.extend {b : Bindings} {e whole : Expr} {site : Token} {message : String}
    (first : e.FirstFault b site message) (front : List Expr) {back : List Expr}
    (parts : whole.parts = front ++ (e.parts ++ back)) (sound : ∀ p ∈ front, ¬ p.IsFaulty b) :
    whole.FirstFault b site message := by
  obtain ⟨before, part, after, cut, clean, faulty⟩ := first
  refine ⟨front ++ before, part, after ++ back, ?_, ?_, faulty⟩
  · rw [parts, cut]
    simp only [List.append_assoc, List.cons_append]
  · intro p mem
    rcases List.mem_append.mp mem with h | h
    · exact sound p h
    · exact clean p h

/-- How an evaluation ends: with what is denoted where no part is faulty, and otherwise at the first
fault. -/
inductive Expr.Ends (b : Bindings) (e : Expr) : Prop
  | value (v : Value) (denotes : Denotes b e v) (sound : ∀ p ∈ e.parts, ¬ p.IsFaulty b)
  | fault (site : Token) (cause : RuntimeFault) (first : e.FirstFault b site cause.message)
      (fails : e.evaluate b = .error (.fault site cause))

/-- An expression that is faulty itself, with sound parts in front of it, ends there. -/
theorem Faulty.ends {b : Bindings} {e : Expr} {site : Token} {message : String}
    (faulty : Faulty b e site message) (front : List Expr) (parts : e.parts = front ++ [e])
    (sound : ∀ p ∈ front, ¬ p.IsFaulty b) : e.Ends b := by
  obtain ⟨cause, fails, rfl⟩ := faulty.evaluate
  exact .fault site cause ⟨front, e, [], parts, sound, faulty⟩ fails

/-- An expression that denotes something, with sound parts in front of it, ends with that. -/
theorem Denotes.ends {b : Bindings} {e : Expr} {v : Value} (denotes : Denotes b e v)
    (front : List Expr) (parts : e.parts = front ++ [e]) (sound : ∀ p ∈ front, ¬ p.IsFaulty b) :
    e.Ends b := by
  refine .value v denotes ?_
  intro p mem
  rw [parts] at mem
  rcases List.mem_append.mp mem with h | h
  · exact sound p h
  · rw [List.mem_singleton.mp h]
    exact denotes.not_isFaulty

/-- Every operable expression ends in one of the two ways. -/
theorem Expr.Operable.ends {e : Expr} (operable : e.Operable) (b : Bindings) : e.Ends b := by
  have none : ∀ p ∈ ([] : List Expr), ¬ p.IsFaulty b := fun p mem => nomatch mem
  induction e with
  | literal v => exact Denotes.literal.ends [] rfl none
  | name t =>
    cases found : b.get? t.lexeme with
    | some v => exact (Denotes.name found).ends [] rfl none
    | none => exact (Faulty.unbound found).ends [] rfl none
  | grouping e ih =>
    cases ih operable with
    | value v denotes sound => exact (Denotes.grouping denotes).ends _ rfl sound
    | fault site cause first fails =>
      exact .fault site cause (first.extend [] rfl none) fails
  | unary op e ih =>
    obtain ⟨kind, inner⟩ := operable
    cases ih inner with
    | fault site cause first fails =>
      exact .fault site cause (first.extend [] rfl none)
        (by simp only [Expr.evaluate, fails])
    | value v denotes sound =>
      rcases kind with bang | minus
      · exact (Denotes.complement bang denotes).ends _ rfl sound
      · by_cases number : v.IsNumber
        · obtain ⟨x, rfl⟩ := number
          exact (Denotes.negation minus denotes).ends _ rfl sound
        · exact (Faulty.negation minus denotes number).ends _ rfl sound
  | binary l op r ihl ihr =>
    obtain ⟨⟨c, m, kind, mem⟩, innerLeft, innerRight⟩ := operable
    cases ihl innerLeft with
    | fault site cause first fails =>
      exact .fault site cause (first.extend [] rfl none)
        (by simp only [Expr.evaluate, fails])
    | value v left soundLeft =>
      cases ihr innerRight with
      | fault site cause first fails =>
        exact .fault site cause (first.extend l.parts rfl soundLeft)
          (by simp only [Expr.evaluate, left.evaluate, fails])
      | value w right soundRight =>
        have parts : (Expr.binary l op r).parts = (l.parts ++ r.parts) ++ [.binary l op r] :=
          (List.append_assoc ..).symm
        have sound : ∀ p ∈ l.parts ++ r.parts, ¬ p.IsFaulty b :=
          List.forall_mem_append.mpr ⟨soundLeft, soundRight⟩
        rcases joins_or_clashes kind mem v w with ⟨u, joins⟩ | ⟨message, clashes⟩
        · exact (Denotes.binary left right joins).ends _ parts sound
        · exact (Faulty.binary left right clashes).ends _ parts sound

end LoxLang
