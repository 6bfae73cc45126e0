import LoxLang.Value

/-!
# Bindings

The values of the variables. Declaring a name again replaces its value, and
nothing else changes one.
-/

namespace LoxLang

/-- The declarations made so far, the latest first. -/
structure Bindings where
  entries : List (String × Value)
deriving DecidableEq

namespace Bindings

/-- No variables. -/
def empty : Bindings := ⟨[]⟩

/-- Declares a variable. -/
def define (b : Bindings) (name : String) (value : Value) : Bindings :=
  ⟨(name, value) :: b.entries⟩

/-- The value of a variable: that of its latest declaration. -/
def get? (b : Bindings) (name : String) : Option Value :=
  b.entries.lookup name

@[simp] theorem get?_empty (name : String) : empty.get? name = none := rfl

theorem get?_define (b : Bindings) (name other : String) (value : Value) :
    (b.define name value).get? other = if other = name then some value else b.get? other := by
  simp only [get?, define, List.lookup_cons]
  by_cases h : other = name
  · simp [h]
  · simp [h, beq_eq_false_iff_ne.2 h]

end Bindings

end LoxLang
