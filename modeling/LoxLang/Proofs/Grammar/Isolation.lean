import LoxLang.Proofs.Grammar.Recovery

/-!
# Statements do not disturb each other

A body and its semicolon are one attempt, and that attempt is the same whatever follows
(`exists_attempt_body`). If they are a declaration, then it is read. If not, then the declaration
fails within them, at the semicolon at the latest: a failed declaration takes no semicolon, and
recovery from within a body stops just behind the semicolon of that body.

So in a sequence of such parts every one costs exactly one attempt, which is a statement or a single
diagnostic, and none is read otherwise than it would be alone (`attempts_parts`).
-/

namespace LoxLang.Grammar

/-- An attempt that **settles** tokens: it reads the declaration that they are, or if they are none
it is one diagnostic. -/
inductive Settles (ts : List Token) : Attempt → Prop
  | read {s : Stmt} (declared : IsDeclaration ts s) : Settles ts ⟨.ok s, []⟩
  | refused {d : Diagnostic} {skipped : List Token} (malformed : ∀ s, ¬ IsDeclaration ts s) :
      Settles ts ⟨.error d, skipped⟩

/-! ## One part -/

section

variable {body rest : List Token} {semicolon : Token}

/-- Cut in front of its last token or earlier, a list keeps that token behind the cut. -/
theorem exists_inside {us : List Token} (spelled : body ++ [semicolon] = us ++ rest)
    (nonempty : rest ≠ []) : ∃ inside, rest = inside ++ [semicolon] ∧ body = us ++ inside := by
  rw [← List.dropLast_append_getLast nonempty, ← List.append_assoc] at spelled
  obtain ⟨same, one⟩ := List.append_inj' spelled rfl
  refine ⟨rest.dropLast, ?_, same⟩
  rw [one, List.dropLast_append_getLast nonempty]

/-- A body and its semicolon are read whole or not at all. -/
theorem isDeclaration_of_declaration (isBody : IsBody body) {s : Stmt}
    (read : declaration (body ++ [semicolon]) = ⟨.ok s, rest⟩) :
    rest = [] ∧ IsDeclaration (body ++ [semicolon]) s := by
  obtain ⟨ts, spelled, declared⟩ := declaration_eq_ok_iff.mp read
  have none : rest = [] := by
    by_contra nonempty
    obtain ⟨inside, -, rfl⟩ := exists_inside spelled nonempty
    obtain ⟨front, last, rfl, closes, -⟩ := declared.exists_semicolon
    exact isBody.notSemicolon last (by simp) closes
  rw [none, List.append_nil] at spelled
  exact ⟨none, spelled ▸ declared⟩

/-- A declaration that fails on a body and its semicolon fails within them. -/
theorem exists_fault_of_declaration (closes : semicolon.kind = .mark .semicolon)
    {fault : SyntaxFault} (failed : declaration (body ++ [semicolon]) = ⟨.error fault, rest⟩) :
    ∃ us inside, body = us ++ inside ∧ rest = inside ++ [semicolon] := by
  obtain ⟨us, spelled, begins⟩ := begins_of_error failed
  have nonempty : rest ≠ [] := by
    rintro rfl
    rw [List.append_nil] at spelled
    have last : semicolon ∈ us := spelled ▸ List.mem_append_right body List.mem_cons_self
    exact (begins.inner semicolon last).1 closes
  obtain ⟨inside, left, whole⟩ := exists_inside spelled nonempty
  exact ⟨us, inside, whole, left⟩

/-- A body and its semicolon are **one attempt**, which settles them whatever follows. -/
theorem exists_attempt_body (isBody : IsBody body) (closes : semicolon.kind = .mark .semicolon) :
    ∃ a, Settles (body ++ [semicolon]) a ∧
      ∀ rest, attempt (body ++ semicolon :: rest) = (a, rest) := by
  cases tried : declaration (body ++ [semicolon]) with
  | mk result left =>
    cases result with
    | ok s =>
      obtain ⟨-, declared⟩ := isDeclaration_of_declaration isBody tried
      refine ⟨⟨.ok s, []⟩, .read declared, fun rest => ?_⟩
      have read : declaration (body ++ semicolon :: rest) = ⟨.ok s, rest⟩ :=
        declaration_eq_ok_iff.mpr ⟨_, List.append_cons body semicolon rest, declared⟩
      rw [attempt, read]
    | error fault =>
      have malformed : ∀ s, ¬ IsDeclaration (body ++ [semicolon]) s := by
        intro s declared
        have read : declaration (body ++ [semicolon]) = ⟨.ok s, []⟩ :=
          declaration_eq_ok_iff.mpr ⟨_, (List.append_nil _).symm, declared⟩
        cases tried.symm.trans read
      obtain ⟨us, inside, rfl, rfl⟩ := exists_fault_of_declaration closes tried
      -- What follows the semicolon is behind the token of the failure.
      have failed (rest : List Token) : declaration (us ++ inside ++ semicolon :: rest) =
          ⟨.error fault, inside ++ semicolon :: rest⟩ := by
        rw [List.append_assoc] at tried ⊢
        cases inside with
        | nil => exact local_declaration.looks tried rest
        | cons t inside => exact local_declaration.looks tried (inside ++ semicolon :: rest)
      let d := diagnose fault (inside ++ [semicolon])
      have same (rest : List Token) : diagnose fault (inside ++ semicolon :: rest) = d := by
        cases inside <;> rfl
      refine ⟨⟨.error d, inside ++ [semicolon]⟩, .refused malformed, fun rest => ?_⟩
      rw [attempt_of_error (failed rest), recover_body isBody.of_append closes, same]

/-- The attempts on a body, its semicolon and what follows are one on the first two, and those on
what follows. -/
theorem exists_attempts_body (isBody : IsBody body) (closes : semicolon.kind = .mark .semicolon) :
    ∃ a, Settles (body ++ [semicolon]) a ∧ attempts (body ++ [semicolon]) = [a] ∧
      ∀ rest, attempts (body ++ semicolon :: rest) = a :: attempts rest := by
  obtain ⟨a, settles, tried⟩ := exists_attempt_body isBody closes
  have first (rest : List Token) : attempts (body ++ semicolon :: rest) = a :: attempts rest := by
    have more : atEnd (body ++ semicolon :: rest) = false := by
      cases body with
      | nil => simp [atEnd, Token.isEnd, closes]
      | cons t body => exact isBody.notEnd t List.mem_cons_self
    rw [attempts, program_of_not_atEnd more, tried]
    rfl
  refine ⟨a, settles, ?_, first⟩
  rw [first [], attempts, program_of_atEnd rfl]

end

/-! ## Sequences of parts -/

/-- A body and its semicolon. -/
def IsPart (ts : List Token) : Prop :=
  ∃ body semicolon, ts = body ++ [semicolon] ∧ IsBody body ∧ semicolon.kind = .mark .semicolon

/-- A declaration is a part. -/
theorem IsDeclaration.isPart {ts : List Token} {s : Stmt} (declared : IsDeclaration ts s) :
    IsPart ts :=
  declared.exists_body

/-- A part is attempted as it is alone, whatever follows. -/
theorem attempts_part_append {part : List Token} (isPart : IsPart part) (rest : List Token) :
    attempts (part ++ rest) = attempts part ++ attempts rest := by
  obtain ⟨body, semicolon, rfl, isBody, closes⟩ := isPart
  obtain ⟨a, -, alone, first⟩ := exists_attempts_body isBody closes
  rw [alone, ← List.append_cons, first]
  rfl

/-- Parts are attempted one by one, each as it is alone. -/
theorem attempts_flatten_append {parts : List (List Token)} (all : ∀ part ∈ parts, IsPart part)
    (rest : List Token) :
    attempts (parts.flatten ++ rest) = parts.flatMap attempts ++ attempts rest := by
  induction parts with
  | nil => rfl
  | cons part parts ih =>
    obtain ⟨isPart, others⟩ := List.forall_mem_cons.mp all
    rw [List.flatten_cons, List.append_assoc, attempts_part_append isPart, ih others,
      List.flatMap_cons, List.append_assoc]

/-- A malformed part costs **one diagnostic** and nothing of its neighbours. A body and its
semicolon are a single attempt, the same alone and in front of any other tokens, and the attempts on
these follow as they are alone. In a sequence of parts each is settled by one attempt as it is
alone: a declaration is read, and any other part gives one diagnostic. -/
theorem attempts_parts :
    (∀ (body : List Token) (semicolon : Token), IsBody body → semicolon.kind = .mark .semicolon →
      ∃ a, attempts (body ++ [semicolon]) = [a] ∧
        ∀ rest, attempts (body ++ [semicolon] ++ rest) = a :: attempts rest) ∧
    ∀ parts : List (List Token), (∀ part ∈ parts, IsPart part) →
      (∀ rest, attempts (parts.flatten ++ rest) = parts.flatMap attempts ++ attempts rest) ∧
      ∀ part ∈ parts, ∃ a, attempts part = [a] ∧ Settles part a := by
  refine ⟨fun body semicolon isBody closes => ?_, fun parts all => ⟨?_, fun part mem => ?_⟩⟩
  · obtain ⟨a, -, alone, first⟩ := exists_attempts_body isBody closes
    refine ⟨a, alone, fun rest => ?_⟩
    rw [← List.append_cons, first]
  · exact attempts_flatten_append all
  · obtain ⟨body, semicolon, rfl, isBody, closes⟩ := all part mem
    obtain ⟨a, settles, alone, -⟩ := exists_attempts_body isBody closes
    exact ⟨a, alone, settles⟩

/-- In `print ; print a; ( var` the first part is malformed and the second one is read. -/
theorem attempts_parts_middle :
    let word : Token := ⟨.keyword .print, "print", 1⟩
    let name : Token := ⟨.identifier, "a", 1⟩
    let semicolon : Token := ⟨.mark .semicolon, ";", 1⟩
    let rest : List Token := [⟨.mark .leftParen, "(", 1⟩, ⟨.keyword .varDecl, "var", 1⟩]
    ∃ d skipped s, IsDeclaration [word, name, semicolon] s ∧
      attempts ([[word, semicolon], [word, name, semicolon]].flatten ++ rest) =
        ⟨.error d, skipped⟩ :: ⟨.ok s, []⟩ :: attempts rest := by
  intro word name semicolon rest
  have value : Derives .equality [name] (.name name) := (Derives.name rfl).loosen (by decide)
  have declared : IsDeclaration [word, name, semicolon] (.print (.name name)) :=
    .statement (.print rfl value rfl)
  have malformed : ∀ s, ¬ IsDeclaration [word, semicolon] s := by
    intro s declared
    have read : declaration [word, semicolon] = ⟨.ok s, []⟩ :=
      declaration_eq_ok_iff.mpr ⟨_, rfl, declared⟩
    have failed : (declaration [word, semicolon]).result.isOk = false := by decide +kernel
    rw [read] at failed
    cases failed
  have isPart : IsPart [word, semicolon] :=
    ⟨[word], semicolon, rfl, ⟨by decide, by decide, by decide⟩, rfl⟩
  have all : ∀ part ∈ [[word, semicolon], [word, name, semicolon]], IsPart part := by
    simp only [List.forall_mem_cons]
    exact ⟨isPart, declared.isPart, by simp⟩
  obtain ⟨whole, each⟩ := attempts_parts.2 _ all
  obtain ⟨a, first, settles⟩ := each [word, semicolon] (by simp)
  obtain ⟨a', second, settles'⟩ := each [word, name, semicolon] (by simp)
  have both : attempts ([[word, semicolon], [word, name, semicolon]].flatten ++ rest) =
      a :: a' :: attempts rest := by
    rw [whole, List.flatMap_cons, List.flatMap_cons, List.flatMap_nil, first, second]
    rfl
  cases settles with
  | read misread => exact absurd misread (malformed _)
  | refused _ =>
    cases settles' with
    | read isDeclaration => exact ⟨_, _, _, isDeclaration, both⟩
    | refused none => exact absurd declared (none _)

end LoxLang.Grammar
