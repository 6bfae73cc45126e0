import LoxLang.Proofs.Execution.Course

/-!
# The names in a program

A program reads the variables that it names and declares some of these, and it knows nothing of any
other. Bindings that agree on the names in it are the same to it: the same statements are executed
to completion, with the same values, and the same one fails (`Course.agree`).

What was executed to completion then tells the bindings afterwards. A variable that was declared has
the value of its last declaration, whatever the bindings were, and any other has the value it had;
so the bindings agree still, also on further names on which they agreed before
(`Bindings.AgreeOn.afterCompleted`), and no name is touched that the program does not declare
(`Course.get?_of_not_declared`). A run that fails is no exception.
-/

namespace LoxLang

/-! ## Names -/

/-- The names of the variables in an expression. -/
def Expr.names : Expr → List String
  | .literal _ => []
  | .grouping inner => inner.names
  | .name token => [token.lexeme]
  | .unary _ operand => operand.names
  | .binary left _ right => left.names ++ right.names

namespace Stmt

/-- The name that a statement declares. -/
def declared? : Stmt → Option String
  | .declare name _ => some name.lexeme
  | _ => none

/-- The names of the variables in a statement: those that it reads, and the one that it
declares. -/
def names : Stmt → List String
  | .expression e | .print e => e.names
  | .declare name (some initial) => name.lexeme :: initial.names
  | .declare name none => [name.lexeme]

end Stmt

/-- Bindings that **agree on** names: each of these is bound in both to the same value, or in
neither. -/
def Bindings.AgreeOn (names : List String) (b b' : Bindings) : Prop :=
  ∀ x ∈ names, b.get? x = b'.get? x

instance (names : List String) (b b' : Bindings) : Decidable (Bindings.AgreeOn names b b') :=
  inferInstanceAs (Decidable (∀ x ∈ names, _))

namespace Bindings.AgreeOn

variable {names names' : List String} {b b' : Bindings}

theorem mono (agree : AgreeOn names b b') (fewer : names' ⊆ names) : AgreeOn names' b b' :=
  fun x mem => agree x (fewer mem)

/-! ## What is read -/

/-- An expression is evaluated alike where its names are bound alike. -/
theorem evaluate {e : Expr} (agree : AgreeOn e.names b b') : e.evaluate b = e.evaluate b' := by
  induction e with
  | literal v => rfl
  | grouping inner ih => exact ih agree
  | name token => simp only [Expr.evaluate, agree token.lexeme List.mem_cons_self]
  | unary op operand ih => simp only [Expr.evaluate, ih agree]
  | binary left op right ihl ihr =>
    have first := ihl (agree.mono (List.subset_append_left _ _))
    have second := ihr (agree.mono (List.subset_append_right _ _))
    simp only [Expr.evaluate, first, second]

theorem value {s : Stmt} (agree : AgreeOn s.names b b') : s.value b = s.value b' := by
  match s with
  | .expression _ | .print _ => exact evaluate agree
  | .declare _ none => rfl
  | .declare _ (some _) => exact evaluate (agree.mono (List.subset_cons_self _ _))

/-! ## What is declared -/

/-- What is executed to completion keeps bindings in agreement. -/
theorem afterCompleted (agree : AgreeOn names b b') (done : List Completed) :
    AgreeOn names (b.afterCompleted done) (b'.afterCompleted done) := by
  intro x mem
  rw [get?_afterCompleted, get?_afterCompleted, agree x mem]

theorem afterStmt (agree : AgreeOn names b b') (s : Stmt) (v : Value) :
    AgreeOn names (b.afterStmt s v) (b'.afterStmt s v) := by
  intro x mem
  rw [get?_afterStmt b ⟨s, v⟩, get?_afterStmt b' ⟨s, v⟩, agree x mem]

end Bindings.AgreeOn

theorem Completed.declares_iff {d : Completed} {x : String} :
    d.declares x = true ↔ d.statement.declared? = some x := by
  obtain ⟨s, v⟩ := d
  cases s <;> simp [declares, Stmt.declared?]

/-! ## Courses -/

/-- What is executed to completion are the statements themselves, in order. -/
theorem Completes.map_statement {b : Bindings} {ss : List Stmt} {done : List Completed}
    (completes : Completes b ss done) : done.map Completed.statement = ss := by
  induction completes with
  | nil => rfl
  | cons _ _ ih => rw [List.map_cons, ih]

theorem Completes.agree {b b' : Bindings} {ss : List Stmt} {done : List Completed}
    (completes : Completes b ss done) (agree : b.AgreeOn (ss.flatMap Stmt.names) b') :
    Completes b' ss done := by
  induction completes generalizing b' with
  | nil => exact .nil
  | @cons b s v ss done computes later ih =>
    rw [List.flatMap_cons] at agree
    have same := (agree.mono (List.subset_append_left _ _)).value
    have others := agree.mono (List.subset_append_right _ _)
    exact .cons (same ▸ computes) (ih (others.afterStmt s v))

/-- Statements take the same course under bindings that agree on their names. -/
theorem Course.agree {b b' : Bindings} {ss : List Stmt} {done : List Completed}
    {ending : Except Failure Unit} (course : Course b ss done ending)
    (agree : b.AgreeOn (ss.flatMap Stmt.names) b') : Course b' ss done ending := by
  cases course with
  | whole completes => exact .whole (completes.agree agree)
  | @stopped before rest failing done failure completes fails =>
    rw [List.flatMap_append, List.flatMap_cons] at agree
    have front := agree.mono (List.subset_append_left _ _)
    have behind := agree.mono (List.subset_append_right _ _)
    have same := ((behind.mono (List.subset_append_left _ _)).afterCompleted done).value
    exact .stopped (completes.agree front) (same ▸ fails)

/-- A name that no statement declares keeps its value, or stays unbound. -/
theorem Course.get?_of_not_declared {b : Bindings} {ss : List Stmt} {done : List Completed}
    {ending : Except Failure Unit} (course : Course b ss done ending) {x : String}
    (undeclared : x ∉ ss.filterMap Stmt.declared?) : (b.afterCompleted done).get? x = b.get? x := by
  have among : ∀ d ∈ done, d.statement ∈ ss := by
    intro d mem
    have inside := List.mem_map_of_mem (f := Completed.statement) mem
    cases course with
    | whole completes => rwa [completes.map_statement] at inside
    | stopped completes _ =>
      rw [completes.map_statement] at inside
      exact List.mem_append_left _ inside
  have none : lastDeclared x done = none := by
    rw [lastDeclared_eq_none_iff]
    intro d mem
    apply Bool.eq_false_iff.mpr
    intro declares
    exact undeclared (List.mem_filterMap.mpr ⟨_, among d mem, Completed.declares_iff.mp declares⟩)
  rw [Bindings.get?_afterCompleted, none, Option.none_or]

/-- A program sees **no names but its own**. Executed under bindings that agree on the names in
them, statements end in the same way, both to the end or both with the same failure, and show the
same output. Afterwards the bindings agree on the names in the statements again, and no name that
the statements do not declare has changed, in either. The failure of statements that were read from
tokens is a fault. -/
theorem Session.execute_agree {ss : List Stmt} {b b' : Bindings}
    (agree : b.AgreeOn (ss.flatMap Stmt.names) b') :
    let executed := (Session.unlimited b).execute ss
    let executed' := (Session.unlimited b').execute ss
    (∃ ending, executed.1.result = .ok ending ∧ executed'.1.result = .ok ending ∧
      ∀ tokens, ss ⊆ Grammar.statements (Grammar.attempts tokens) →
        ending = .ok () ∨ ∃ site cause, ending = .error (.fault site cause)) ∧
    executed.1.output = executed'.1.output ∧
    executed.2.bindings.AgreeOn (ss.flatMap Stmt.names) executed'.2.bindings ∧
    ∀ x, x ∉ ss.filterMap Stmt.declared? →
      executed.2.bindings.get? x = b.get? x ∧ executed'.2.bindings.get? x = b'.get? x := by
  intro executed executed'
  obtain ⟨done, ending, course⟩ := exists_course b ss
  have course' := course.agree agree
  have executedIs : executed = _ := Session.execute_of_course course
  have executedIs' : executed' = _ := Session.execute_of_course course'
  rw [executedIs, executedIs']
  exact ⟨⟨ending, rfl, rfl, fun tokens read => course.ending_cases_of_read read⟩, rfl,
    agree.afterCompleted done, fun x undeclared =>
      ⟨course.get?_of_not_declared undeclared, course'.get?_of_not_declared undeclared⟩⟩

/-- A name that the program does not mention is bound on one side only. Both executions declare `x`,
print it and fail at the negation, and `y` and the other name are as they were. -/
theorem Session.execute_agree_negation :
    let b := (Bindings.empty.define "y" (.string "a")).define "other" (.bool true)
    let b' := Bindings.empty.define "y" (.string "a")
    let ss := statementsOf "var x = y; print x; print -x; var y = x + x;"
    let executed := (Session.unlimited b).execute ss
    let executed' := (Session.unlimited b').execute ss
    b.AgreeOn (ss.flatMap Stmt.names) b' ∧
      executed.1.result = .ok (.error (.fault ⟨.mark .minus, "-", 1⟩ .operandNotNumber)) ∧
      executed'.1.result = executed.1.result ∧
      executed.1.output = utf8 "a\n" ∧ executed'.1.output = utf8 "a\n" ∧
      executed.2.bindings.AgreeOn (ss.flatMap Stmt.names) executed'.2.bindings ∧
      executed.2.bindings.get? "other" = some (.bool true) ∧
      executed'.2.bindings.get? "other" = none := by
  intro b b' ss executed executed'
  have agree : b.AgreeOn (ss.flatMap Stmt.names) b' := by decide +kernel
  have other : "other" ∉ ss.filterMap Stmt.declared? := by decide +kernel
  have shown : executed.1.output = utf8 "a\n" := by decide +kernel
  obtain ⟨⟨ending, ended, ended', -⟩, output, after, untouched⟩ := Session.execute_agree agree
  exact ⟨agree, by decide +kernel, ended'.trans ended.symm, shown, output.symm.trans shown, after,
    (untouched "other" other).1, (untouched "other" other).2⟩

end LoxLang
