import LoxLang.Proofs.Command.Text
import LoxLang.Proofs.Execution.Sites
import Mathlib.Algebra.Ring.Nat

/-!
# The lines of reports

A report is written as its text and a line break, so it is one line if its text has no break of its
own. A text says where and what in fixed words, in digits, and in what it **quotes** from the
source: a character that begins no lexeme, the lexeme of a token, the name of a variable. Such a
character is no blank, and of all lexemes only strings have blanks in them. A runtime error is about
an operator or a name.

So there is one way for a report to be more than one line. A syntax error at a string quotes it with
all its line breaks (`breaks_text_of_mem_reports`), and the reports of a run are longer by these
(`Session.run_report_lines`).
-/

namespace LoxLang

/-! ## Line breaks -/

/-- The number of line breaks in a text. -/
def breaks (text : String) : Nat :=
  text.toList.count '\n'

@[simp] theorem breaks_append (text text' : String) :
    breaks (text ++ text') = breaks text + breaks text' := by
  simp only [breaks, String.toList_append, List.count_append]

theorem breaks_eq_zero_iff {text : String} : breaks text = 0 ↔ '\n' ∉ text.toList :=
  List.count_eq_zero

@[simp] theorem breaks_repr (n : Nat) : breaks n.repr = 0 := by
  rw [breaks_eq_zero_iff, Nat.toList_repr]
  intro mem
  exact absurd (Nat.isDigit_of_mem_toDigits (by decide) (by decide) mem) (by decide)

/-- The line breaks of lexemes of a kind, where they are lexemes of a source. -/
def TokenKind.breaks : TokenKind → Nat
  | .string contents => LoxLang.breaks contents
  | _ => 0

/-- The line breaks that a diagnostic quotes: those of the string that a syntax error is about. -/
def Diagnostic.quotedBreaks : Diagnostic → Nat
  | .syntactic token _ => token.kind.breaks
  | _ => 0

/-! ## Wordings -/

theorem LexicalFault.breaks_message (fault : LexicalFault)
    (notBlank : ∀ c, fault = .strayCharacter c → Source.isBlank c = false) :
    breaks fault.message = 0 := by
  cases fault with
  | unterminatedString => decide +kernel
  | strayCharacter c =>
    have other : '\n' ≠ c := by
      rintro rfl
      exact absurd (notBlank '\n' rfl) (by decide)
    have front : breaks "Unexpected character '" = 0 := by decide +kernel
    have quoted : breaks (String.singleton c) = 0 := by simp [breaks_eq_zero_iff, other]
    have back : breaks "'." = 0 := by decide +kernel
    show breaks ("Unexpected character '" ++ String.singleton c ++ "'.") = 0
    rw [breaks_append, breaks_append, front, quoted, back]

theorem SyntaxFault.breaks_message (fault : SyntaxFault) : breaks fault.message = 0 := by
  cases fault with
  | semicolon after => cases after <;> decide +kernel
  | _ => decide +kernel

/-- A fault met at a site quotes no more than what stands there. -/
theorem RuntimeFault.breaks_message {cause : RuntimeFault} {site : Token}
    (met : cause.MetAt site) (plain : breaks site.lexeme = 0) : breaks cause.message = 0 := by
  cases cause with
  | undefinedVariable name =>
    obtain rfl : name = site.lexeme := met
    have front : breaks "Undefined variable '" = 0 := by decide +kernel
    have back : breaks "'." = 0 := by decide +kernel
    show breaks ("Undefined variable '" ++ site.lexeme ++ "'.") = 0
    rw [breaks_append, breaks_append, front, plain, back]
  | _ => decide +kernel

theorem Diagnostic.breaks_location {d : Diagnostic} {token : Token} (about : d.token? = some token)
    (empty : token.isEnd = true → breaks token.lexeme = 0) :
    breaks d.location = breaks token.lexeme := by
  rw [location, about]
  show breaks (if token.isEnd = true then " at end" else " at '" ++ token.lexeme ++ "'") = _
  by_cases ends : token.isEnd = true
  · rw [if_pos ends, empty ends]
    decide +kernel
  · have front : breaks " at '" = 0 := by decide +kernel
    have back : breaks "'" = 0 := by decide +kernel
    rw [if_neg ends, breaks_append, breaks_append, front, back, Nat.zero_add, Nat.add_zero]

/-- A diagnostic about a source has the breaks of its place and those of its message. -/
theorem Diagnostic.breaks_text {d : Diagnostic} (notIo : d.cause? = none) :
    breaks d.text = breaks d.location + breaks d.message := by
  have front : breaks "[line " = 0 := by decide +kernel
  have word : breaks "] Error" = 0 := by decide +kernel
  have colon : breaks ": " = 0 := by decide +kernel
  cases d with
  | io error => cases notIo
  | _ =>
    simp only [text, breaks_append, breaks_repr, front, word, colon, Nat.zero_add, Nat.add_zero]

/-! ## Quotations -/

/-- Of all lexemes only strings have line breaks, and these have those of their contents. -/
theorem Source.IsLexeme.breaks {kind : TokenKind} {text : List Char} (is : IsLexeme kind text) :
    text.count '\n' = kind.breaks := by
  cases kind with
  | string contents =>
    rw [is.eq_of_string]
    simp [TokenKind.breaks, LoxLang.breaks]
  | _ =>
    refine List.count_eq_zero.mpr ?_
    intro mem
    obtain ⟨_, -, -, same⟩ := is.of_isBlank mem (by decide)
    cases same

theorem Source.breaks_of_mem_tokens {source : String} {t : Token} (mem : t ∈ tokens (scan source)) :
    breaks t.lexeme = t.kind.breaks := by
  rcases isLexeme_of_mem_tokens mem with is | rfl
  · exact is.breaks
  · rfl

/-- A report has the line breaks of the string that a syntax error is about, and no others. -/
theorem breaks_text_of_mem_reports {b : Bindings} {source : String} {d : Diagnostic}
    (mem : d ∈ reports (run b source).events) : breaks d.text = d.quotedBreaks := by
  have located {d : Diagnostic} {t : Token} (about : d.token? = some t)
      (among : t ∈ Source.tokens (Source.scan source)) : breaks d.location = t.kind.breaks := by
    have lexeme := Source.breaks_of_mem_tokens among
    rw [← lexeme]
    refine Diagnostic.breaks_location about ?_
    intro ends
    rw [lexeme, of_decide_eq_true ends]
    rfl
  rcases mem_reports_run mem with analysed | ⟨site, message, rfl⟩
  · rcases of_mem_reports_analyse analysed with ⟨line, fault, rfl, notBlank⟩ |
      ⟨u, among, fault, rfl⟩
    · have nowhere : breaks (Diagnostic.lexical line fault.message).location = 0 := rfl
      rw [Diagnostic.breaks_text rfl, nowhere, Nat.zero_add]
      exact fault.breaks_message notBlank
    · rw [Diagnostic.breaks_text rfl, located rfl among]
      exact congrArg (u.kind.breaks + ·) fault.breaks_message
  · obtain ⟨among, isSite, cause, rfl, met⟩ := of_runtime_mem_reports mem
    have plain : site.kind.breaks = 0 := by
      rcases isSite with ⟨m, kind⟩ | kind <;> rw [kind] <;> rfl
    rw [Diagnostic.breaks_text rfl, located rfl among, plain, Nat.zero_add]
    exact RuntimeFault.breaks_message met ((Source.breaks_of_mem_tokens among).trans plain)

/-! ## Lines of reports -/

/-- Reports are a line each, and a line more for each break in their texts. -/
theorem length_lines_rendered (ds : List Diagnostic) :
    (Command.lines (rendered ds)).length = ds.length + (ds.map fun d => breaks d.text).sum := by
  induction ds with
  | nil => rfl
  | cons d rest ih =>
    have whole : rendered (d :: rest) = utf8 d.text ++ 10 :: rendered rest := by
      rw [rendered, List.map_cons, String.join_cons, utf8_append, utf8_append, List.append_assoc]
      rfl
    rw [whole, Command.length_lines_append_break, Command.count_utf8, ih, List.length_cons,
      List.map_cons, List.sum_cons, breaks]
    omega

/-- Reports without breaks in their texts are a line each. -/
theorem lines_rendered {ds : List Diagnostic} (plain : ∀ d ∈ ds, breaks d.text = 0) :
    Command.lines (rendered ds) = ds.map fun d => utf8 (d.text ++ "\n") := by
  have areLines : Command.AreLines '\n' ((ds.map fun d => d.text ++ "\n").map String.toList) := by
    induction ds with
    | nil => exact .nil
    | cons d rest ih =>
      obtain ⟨first, later⟩ := List.forall_mem_cons.mp plain
      rw [List.map_cons, List.map_cons, String.toList_append]
      exact .cons (breaks_eq_zero_iff.mp first) (ih later)
  rw [rendered, Command.lines_utf8 areLines, List.map_map]
  rfl

/-- The reports of a run are **lines, but for strings**. They are all lexical and syntax errors, or
the one runtime error, or none, and each is a line, with a line more for each line break in the
string that a syntax error is about. No other text that they quote has one. So each report is one
line if and only if no syntax error is at a string with a line break. -/
theorem Session.run_report_lines (b : Bindings) (source : String) :
    let items := Source.scan source
    let reported := reports (LoxLang.run b source).events
    let ran := ((Session.unlimited b).run source).1
    ran.diagnostics = rendered reported ∧
    (ran.result = .ok (.ok .staticError) ∧
        reported = Source.errors items ++ Grammar.errors (Grammar.attempts (Source.tokens items)) ∨
      ran.result = .ok (.ok .runtimeError) ∧
        (∃ site cause, reported = [.runtime site (RuntimeFault.message cause)]) ∨
      ran.result = .ok (.ok .ok) ∧ reported = []) ∧
    (∀ d ∈ reported, breaks d.text = d.quotedBreaks) ∧
    (Command.lines ran.diagnostics).length =
      reported.length + (reported.map Diagnostic.quotedBreaks).sum ∧
    ((Command.lines ran.diagnostics = reported.map fun d => utf8 (d.text ++ "\n")) ↔
      ∀ d ∈ reported, d.quotedBreaks = 0) := by
  intro items reported ran
  have ranIs : ran = _ := congrArg Prod.fst (Session.run_unlimited b source)
  have result : ran.result = .ok (LoxLang.run b source).ending := by rw [ranIs]
  have diagnostics : ran.diagnostics = rendered reported := by rw [ranIs]
  have quoted : ∀ d ∈ reported, breaks d.text = d.quotedBreaks :=
    fun _ => breaks_text_of_mem_reports
  have length : (Command.lines ran.diagnostics).length =
      reported.length + (reported.map Diagnostic.quotedBreaks).sum := by
    rw [diagnostics, length_lines_rendered, List.map_congr_left quoted]
  refine ⟨diagnostics, ?_, quoted, length, ?_, ?_⟩
  · rw [result]
    rcases reports_run_cases b source with ⟨ended, told⟩ | ⟨ended, told⟩ | ⟨ended, told⟩
    · exact .inl ⟨by rw [ended], told.trans (reports_analyse source)⟩
    · exact .inr (.inl ⟨by rw [ended], told⟩)
    · exact .inr (.inr ⟨by rw [ended], told⟩)
  · intro each d mem
    rw [each, List.length_map] at length
    have none : (reported.map Diagnostic.quotedBreaks).sum = 0 := by omega
    exact List.sum_eq_zero_iff_forall_eq_nat.mp none _ (List.mem_map_of_mem mem)
  · intro plain
    rw [diagnostics]
    exact lines_rendered fun d mem => (quoted d mem).trans (plain d mem)

/-- A stray character and a string in the way, each reported on a line. -/
theorem Session.run_report_lines_plain :
    let source := "@ true \"a b\";"
    Command.lines ((Session.unlimited .empty).run source).1.diagnostics =
      [utf8 "[line 1] Error: Unexpected character '@'.\n",
        utf8 "[line 1] Error at '\"a b\"': Expect ';' after expression.\n"] := by
  intro source
  have told : reports (LoxLang.run .empty source).events =
      [.lexical 1 (LexicalFault.strayCharacter '@').message,
        .syntactic ⟨.string "a b", "\"a b\"", 1⟩ (SyntaxFault.semicolon .expression).message] := by
    decide +kernel
  obtain ⟨-, -, -, -, each⟩ := Session.run_report_lines .empty source
  rw [told] at each
  have plain := each.mpr (by decide +kernel)
  exact plain.trans (by decide +kernel)

/-- A string over two lines in the way: one report, and not one line. -/
theorem Session.not_run_report_lines :
    let source := "true \"a\nb\";"
    let reported := reports (LoxLang.run .empty source).events
    let ran := ((Session.unlimited .empty).run source).1
    reported.length = 1 ∧ ran.diagnostics = rendered reported ∧
      (∃ d ∈ reported, '\n' ∈ d.text.toList) ∧
      Command.lines ran.diagnostics = [utf8 "[line 2] Error at '\"a\n",
        utf8 "b\"': Expect ';' after expression.\n"] := by
  decide +kernel

end LoxLang
