import LoxLang.Proofs.Execution.Course
import LoxLang.Proofs.Number.Integers
import LoxLang.Proofs.Source.Spacing

/-!
# Printing a number

The text of a finite number is source text for it. Without a sign it is one numeral, and scans to it
(`scan_text`); with one it is a minus in front of the numeral of the magnitude, and the operator
gives the sign back (`exists_spelled`). So to print the text of a number shows that text
(`Session.run_print_text`), and to print the digits of a whole number that is a double shows these
digits (`Session.run_print_integer`).

Neither a numeral nor a minus goes on with what stands behind it here, which is a semicolon, a digit
or nothing. All tokens are on one line, since there is no line break in any of them.
-/

namespace LoxLang

namespace Source

/-! ## In front of a semicolon -/

/-- A numeral begins with a digit, and is digits and a dot. -/
theorem IsLexeme.of_number {value : Float} {text : List Char} (is : IsLexeme (.number value) text) :
    (∃ c body, text = c :: body ∧ c.isDigit = true) ∧
      ∀ d ∈ text, d.isDigit = true ∨ d = '.' := by
  cases is with
  | @number whole fraction nonempty digits decimals =>
    obtain ⟨c, whole, rfl⟩ := List.exists_cons_of_ne_nil nonempty
    refine ⟨⟨c, _, rfl, digits c List.mem_cons_self⟩, ?_⟩
    intro d mem
    rcases List.mem_append.mp mem with mem | mem
    · exact .inl (digits d mem)
    · exact (of_mem_pointed mem).symm.imp_left (decimals d)

/-- A numeral stands in front of a character that is no digit and no dot, and at the end. -/
theorem IsLexeme.stands_number {value : Float} {text rest : List Char}
    (is : IsLexeme (.number value) text)
    (parted : ∀ c, rest.head? = some c → c.isDigit = false ∧ c ≠ '.') :
    Stands (.lexeme (.number value) text) rest := by
  obtain ⟨⟨c, body, rfl, digit⟩, -⟩ := is.of_number
  refine is.stands_of_ends ?_ ?_
  · intro comment
    obtain ⟨rfl, -⟩ := List.cons_prefix_cons.mp comment
    exact absurd digit (by decide)
  · intro kind' d more next longer
    obtain ⟨notDigit, notDot⟩ := parted d next
    obtain ⟨_, _, -, -, -, rfl⟩ := IsLexeme.of_digit digit longer
    rcases longer.of_number.2 d (by simp) with isDigit | isDot
    · exact absurd isDigit (Bool.eq_false_iff.mp notDigit)
    · exact notDot isDot

/-- A mark that nothing extends stands in front of anything, but for the slash. -/
theorem stands_mark {c : Char} {m : Mark} (mark : Mark.ofChar? c = some m)
    (alone : m.withEqual? = none) (other : m ≠ .slash) (rest : List Char) :
    Stands (.lexeme (.mark m) [c]) rest := by
  have is : IsLexeme (.mark m) [c] := Mark.spelling_of_ofChar? mark ▸ .mark m
  refine is.stands_of_ends ?_ ?_
  · intro comment
    obtain ⟨rfl, -⟩ := List.cons_prefix_cons.mp comment
    exact other (Option.some.inj mark).symm
  · intro kind' d more _ longer
    rcases longer.of_mark mark with ⟨nothing, -⟩ | ⟨_, grows, -⟩
    · cases nothing
    · rw [alone] at grows
      cases grows

/-! ## Tokens on one line -/

/-- A token without a line break is the first item of its lexeme and what follows. -/
theorem items_ofToken_cons {t : Token} (noBreak : '\n' ∉ t.lexeme.toList) (pieces : List Piece) :
    items t.line (.ofToken t :: pieces) = .ok t :: items t.line pieces := by
  have flat : (Piece.ofToken t).lineBreaks = 0 := List.count_eq_zero.mpr noBreak
  have item : (Piece.ofToken t).item? t.line = some (.ok t) := by
    rw [Piece.ofToken, Piece.item?, String.ofList_toList]
  rw [items, flat, Nat.add_zero, item]
  rfl

/-- The items of lexemes without line breaks. -/
theorem items_ofToken_inLine {line : Nat} {ts : List Token}
    (inLine : ∀ t ∈ ts, t.line = line ∧ '\n' ∉ t.lexeme.toList) :
    items line (ts.map Piece.ofToken) = ts.map .ok ++ [.ok (.endOfFile line)] := by
  induction ts with
  | nil => rfl
  | cons t rest ih =>
    obtain ⟨⟨rfl, noBreak⟩, later⟩ := List.forall_mem_cons.mp inLine
    rw [List.map_cons, items_ofToken_cons noBreak, ih later]
    rfl

end Source

/-! ## A print statement -/

/-- The keyword of a print statement, on the first line. -/
def Token.print : Token := ⟨.keyword .print, "print", 1⟩

/-- The minus on the first line. -/
def Token.minus : Token := ⟨.mark .minus, "-", 1⟩

/-- The semicolon on the first line. -/
def Token.semicolon : Token := ⟨.mark .semicolon, ";", 1⟩

/-- An expression is **spelled** by a text on one line: in front of a semicolon, the text is cut
into tokens that derive it. -/
structure Expr.Spelled (e : Expr) (text : String) (ts : List Token) : Prop where
  cut : Source.Segments ((ts ++ [Token.semicolon]).map .ofToken) (text.toList ++ [';'])
  inLine : ∀ t ∈ ts, t.line = 1 ∧ '\n' ∉ t.lexeme.toList
  derives : Grammar.Derives .equality ts e

variable {e : Expr} {text : String} {ts : List Token}

/-- The tokens of a print statement are those of its expression, between the keyword and the
semicolon. -/
theorem scan_print (spelled : e.Spelled text ts) :
    Source.scan ("print " ++ text ++ ";") =
      (Token.print :: (ts ++ [Token.semicolon])).map .ok ++ [.ok (.endOfFile 1)] := by
  have chars : ("print " ++ text ++ ";").toList =
      "print".toList ++ (' ' :: (text.toList ++ [';'])) := by simp
  have word : Source.IsLexeme (.keyword .print) "print".toList := .keyword .print
  have cut : Source.Segments
      (.ofToken .print :: .blank ' ' :: (ts ++ [Token.semicolon]).map .ofToken)
      ("print " ++ text ++ ";").toList := by
    rw [chars]
    exact .cons (p := .ofToken .print) (word.stands (by simp; decide))
      (.cons (p := .blank ' ') (.blank (by decide)) spelled.cut)
  have inLine : ∀ t ∈ ts ++ [Token.semicolon], t.line = 1 ∧ '\n' ∉ t.lexeme.toList := by
    intro t mem
    rcases List.mem_append.mp mem with inside | last
    · exact spelled.inLine t inside
    · obtain rfl := List.mem_singleton.mp last
      exact ⟨rfl, by decide⟩
  have first := Source.items_ofToken_cons (t := .print) (by decide)
  have behind : Source.items 1 (.blank ' ' :: (ts ++ [Token.semicolon]).map .ofToken) = _ :=
    Source.items_ofToken_inLine inLine
  rw [Source.scan, Source.split_eq_iff.mpr cut]
  exact (first _).trans (congrArg (_ :: ·) behind)

/-- A print statement is the one statement of its source. -/
theorem statementsOf_print (spelled : e.Spelled text ts) :
    WellFormed ("print " ++ text ++ ";") ∧
      statementsOf ("print " ++ text ++ ";") = [.print e] := by
  have scanned := scan_print spelled
  have tokens : Source.tokens (Source.scan ("print " ++ text ++ ";")) =
      [Token.print :: (ts ++ [Token.semicolon])].flatten ++ [.endOfFile 1] := by
    rw [scanned]
    simp [Source.tokens]
  have declared : Grammar.IsDeclaration (Token.print :: (ts ++ [Token.semicolon])) (.print e) :=
    .statement (.print rfl spelled.derives rfl)
  have read := (Grammar.program_eq_ok_iff.mpr ⟨_, tokens, .cons declared .nil, rfl⟩).1
  obtain ⟨clean, statements⟩ := results_eq_ok_iff.mp read
  refine ⟨⟨?_, clean⟩, statements⟩
  rw [scanned]
  simp [Source.errors]

/-- A print statement shows the value of its expression. -/
theorem Session.run_print (spelled : e.Spelled text ts) {b : Bindings} {v : Value}
    (computes : e.evaluate b = .ok v) :
    let ran := (Session.unlimited b).run ("print " ++ text ++ ";")
    ran.1.result = .ok (.ok .ok) ∧ ran.1.output = utf8 (v.text ++ "\n") := by
  obtain ⟨formed, statements⟩ := statementsOf_print spelled
  have course : Course b (statementsOf ("print " ++ text ++ ";")) [⟨.print e, v⟩] (.ok ()) := by
    rw [statements]
    exact .whole (.cons computes .nil)
  obtain ⟨ended, shown, -⟩ := Session.run_of_course formed course
  exact ⟨ended, shown.trans (by simp [printed, Completed.line?])⟩

/-! ## The text of a number -/

/-- A number with a sign is the negation of one without, and has a minus in front of its text. -/
theorem exists_magnitude {x : Float} (finite : Number.rank x < Number.infinity)
    (negative : Number.isNegative x = true) :
    ∃ y : Float, Number.rank y < Number.infinity ∧ Number.isNegative y = false ∧ -y = x ∧
      (Value.number x).text = "-" ++ (Value.number y).text := by
  have bounded := Nat.le_of_lt finite
  have same := Number.rank_ofRank bounded
  have unsigned := Number.isNegative_ofRank bounded
  refine ⟨Number.ofRank (Number.rank x), by rwa [same], unsigned,
    Number.neg_ofRank negative bounded, ?_⟩
  simp [Value.text, Number.Style.write, same, unsigned, negative, finite, bounded]

/-- The numeral of a number, as a token on the first line. -/
def Token.numeral (x : Float) : Token := ⟨.number x, (Value.number x).text, 1⟩

section Unsigned

variable {x : Float} (finite : Number.rank x < Number.infinity)
  (unsigned : Number.isNegative x = false)

include finite unsigned

theorem stands_numeral {rest : List Char}
    (parted : ∀ c, rest.head? = some c → c.isDigit = false ∧ c ≠ '.') :
    Source.Stands (.ofToken (.numeral x)) rest :=
  (Number.isLexeme_text finite unsigned).stands_number parted

theorem newline_notMem_numeral : '\n' ∉ (Token.numeral x).lexeme.toList := by
  intro mem
  rcases (Number.isLexeme_text finite unsigned).of_number.2 _ mem with digit | dot
  · exact absurd digit (by decide)
  · exact absurd dot (by decide)

/-- The text of a number without a sign scans to that number. -/
theorem scan_text : Source.scan (Value.number x).text = [.ok (.numeral x), .ok (.endOfFile 1)] := by
  have cut : Source.Segments [.ofToken (.numeral x)] ((Value.number x).text.toList ++ []) :=
    .cons (stands_numeral finite unsigned (by simp)) .nil
  rw [List.append_nil] at cut
  have noBreak := newline_notMem_numeral finite unsigned
  have items : Source.items 1 ([Token.numeral x].map .ofToken) = _ :=
    Source.items_ofToken_inLine (by simpa using ⟨rfl, noBreak⟩)
  rw [Source.scan, Source.split_eq_iff.mpr cut]
  exact items

/-- In front of a semicolon, the numeral is cut off. -/
theorem segments_numeral :
    Source.Segments ([.numeral x, .semicolon].map .ofToken)
      ((Value.number x).text.toList ++ [';']) :=
  .cons (stands_numeral finite unsigned (by simp))
    (.cons (p := .ofToken .semicolon) (Source.stands_mark rfl rfl (by decide) []) .nil)

end Unsigned

/-- The text of a finite number spells an expression for it. -/
theorem exists_spelled {x : Float} (finite : Number.rank x < Number.infinity) :
    ∃ e ts, Expr.Spelled e (Value.number x).text ts ∧ ∀ b, e.evaluate b = .ok (.number x) := by
  cases signed : Number.isNegative x with
  | false =>
    refine ⟨.literal (.number x), [.numeral x], ⟨segments_numeral finite signed, ?_, ?_⟩,
      fun _ => rfl⟩
    · simpa using ⟨rfl, newline_notMem_numeral finite signed⟩
    · exact .loosen (by decide) (.number rfl)
  | true =>
    -- The numeral is that of the magnitude, and the operator gives the sign back.
    obtain ⟨y, magnitude, unsigned, rfl, text⟩ := exists_magnitude finite signed
    refine ⟨.unary .minus (.literal (.number y)), [.minus, .numeral y], ⟨?_, ?_, ?_⟩, fun _ => rfl⟩
    · rw [text, String.toList_append, List.append_assoc]
      exact .cons (p := .ofToken .minus) (Source.stands_mark rfl rfl (by decide) _)
        (segments_numeral magnitude unsigned)
    · simpa [Token.minus] using ⟨rfl, newline_notMem_numeral magnitude unsigned⟩
    · exact .loosen (d := .unary) (by decide)
        (.unary (.inr rfl) (.loosen (by decide) (.number rfl)))

/-- To print the text of a finite number shows that text. -/
theorem Session.run_print_number {x : Float} (finite : Number.rank x < Number.infinity)
    (b : Bindings) :
    let ran := (Session.unlimited b).run ("print " ++ (Value.number x).text ++ ";")
    ran.1.result = .ok (.ok .ok) ∧ ran.1.output = utf8 ((Value.number x).text ++ "\n") := by
  obtain ⟨e, ts, spelled, computes⟩ := exists_spelled finite
  exact Session.run_print spelled (computes b)

/-- The text of a finite number is **source text for that number**, be it negative, negative zero or
subnormal. To print it shows the same text again, under all bindings; and where the number has no
sign, the text scans to one numeral with that lexeme, for the same number and not just an equal one:
here the two zeros differ. -/
theorem Session.run_print_text {x : Float} (finite : Number.rank x < Number.infinity)
    (b : Bindings) :
    let text := (Value.number x).text
    let ran := (Session.unlimited b).run ("print " ++ text ++ ";")
    (ran.1.result = .ok (.ok .ok) ∧ ran.1.output = utf8 (text ++ "\n")) ∧
      (Number.isNegative x = false →
        Source.scan text = [.ok ⟨.number x, text, 1⟩, .ok (.endOfFile 1)]) :=
  ⟨Session.run_print_number finite b, fun unsigned => scan_text finite unsigned⟩

/-- Negative zero keeps its sign, and a tenth is read as it was. -/
theorem Session.run_print_text_zero_tenth :
    let zero := Float.ofBits 0x8000000000000000
    let tenth := Float.ofBits 0x3FB999999999999A
    let ran := (Session.unlimited .empty).run "print -0;"
    (Number.rank zero < Number.infinity ∧ (Value.number zero).text = "-0" ∧
      ran.1.result = .ok (.ok .ok) ∧ ran.1.output = utf8 "-0\n") ∧
    Number.rank tenth < Number.infinity ∧ Number.isNegative tenth = false ∧
      Source.scan "0.1" = [.ok ⟨.number tenth, "0.1", 1⟩, .ok (.endOfFile 1)] := by
  intro zero tenth ran
  have finite : Number.rank zero < Number.infinity := by decide +kernel
  have finite' : Number.rank tenth < Number.infinity := by decide +kernel
  have unsigned : Number.isNegative tenth = false := by decide +kernel
  have text : (Value.number zero).text = "-0" := by decide +kernel
  have text' : (Value.number tenth).text = "0.1" := by decide +kernel
  have shown := (Session.run_print_text finite .empty).1
  have scanned := (Session.run_print_text finite' .empty).2 unsigned
  rw [text] at shown
  rw [text'] at scanned
  exact ⟨⟨finite, text, shown⟩, finite', unsigned, scanned⟩

/-! ## Whole numbers -/

/-- **Whole numbers survive**. To print a whole number of at most 53 binary digits, written in
decimal without zeros in front, shows the same digits, under all bindings. -/
theorem Session.run_print_integer {n : Nat} (small : n ≤ 2 ^ 53) (b : Bindings) :
    let ran := (Session.unlimited b).run ("print " ++ n.repr ++ ";")
    ran.1.result = .ok (.ok .ok) ∧ ran.1.output = utf8 (n.repr ++ "\n") := by
  obtain ⟨x, finite, -, -, text⟩ := Number.exists_integer small
  rw [← text]
  exact Session.run_print_number finite b

/-- The bound itself is shown with all its digits. -/
theorem Session.run_print_integer_bound :
    2 ^ 53 ≤ 2 ^ 53 ∧
      ((Session.unlimited .empty).run "print 9007199254740992;").1.output =
        utf8 "9007199254740992\n" := by
  have digits : (2 ^ 53).repr = "9007199254740992" := by decide +kernel
  have shown := (Session.run_print_integer (n := 2 ^ 53) le_rfl .empty).2
  rw [digits] at shown
  exact ⟨le_rfl, shown⟩

-- The bound is sharp: the next number is rounded to it.
example : ((Session.unlimited .empty).run "print 9007199254740993;").1.output =
    utf8 "9007199254740992\n" := by
  decide +kernel

end LoxLang
