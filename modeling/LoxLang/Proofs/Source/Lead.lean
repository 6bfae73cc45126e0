import LoxLang.Source.Piece

/-!
# What a character leads

The first character of a source decides what its first piece is: a blank, a string, a number, a
word, a mark, or nothing (`Lead`). The classes exclude one another, so the first piece is found by
its class alone, without regard to the order in which the classes are tried; there is one equation
for each (`splitFirst_blank`, …). Only the slash leads two kinds of piece, and there the next
character decides.
-/

namespace LoxLang.Source

/-- What a character leads. -/
inductive Lead (c : Char) : Prop where
  | blank (is : isBlank c = true)
  | quote (is : c = '"')
  | digit (is : c.isDigit = true)
  | letter (is : isWordStart c = true)
  | mark (m : Mark) (is : Mark.ofChar? c = some m)
  | nothing (notBlank : isBlank c = false) (notQuote : c ≠ '"') (notDigit : c.isDigit = false)
      (notLetter : isWordStart c = false) (notMark : Mark.ofChar? c = none)

/-- Every character leads something or nothing. -/
theorem lead (c : Char) : Lead c := by
  cases blank : isBlank c with
  | true => exact .blank blank
  | false =>
  by_cases quote : c = '"'
  · exact .quote quote
  cases digit : c.isDigit with
  | true => exact .digit digit
  | false =>
  cases letter : isWordStart c with
  | true => exact .letter letter
  | false =>
  cases mark : Mark.ofChar? c with
  | some m => exact .mark m mark
  | none => exact .nothing blank quote digit letter mark

/-! ## The classes exclude one another -/

theorem eq_of_isBlank {c : Char} (blank : isBlank c = true) :
    c = ' ' ∨ c = '\r' ∨ c = '\t' ∨ c = '\n' := by
  simpa [isBlank, or_assoc] using blank

theorem isBlank_of_isDigit {c : Char} (digit : c.isDigit = true) : isBlank c = false := by
  apply Bool.eq_false_iff.mpr
  intro blank
  rcases eq_of_isBlank blank with rfl | rfl | rfl | rfl <;> exact absurd digit (by decide)

theorem ne_quote_of_isDigit {c : Char} (digit : c.isDigit = true) : c ≠ '"' := by
  rintro rfl
  exact absurd digit (by decide)

theorem isBlank_of_isWordStart {c : Char} (letter : isWordStart c = true) : isBlank c = false := by
  apply Bool.eq_false_iff.mpr
  intro blank
  rcases eq_of_isBlank blank with rfl | rfl | rfl | rfl <;> exact absurd letter (by decide)

theorem ne_quote_of_isWordStart {c : Char} (letter : isWordStart c = true) : c ≠ '"' := by
  rintro rfl
  exact absurd letter (by decide)

theorem isDigit_of_isWordStart {c : Char} (letter : isWordStart c = true) : c.isDigit = false := by
  apply Bool.eq_false_iff.mpr
  intro digit
  have low : c.val ≤ '9'.val := of_decide_eq_true ((Bool.and_eq_true _ _).mp digit).2
  rcases (Bool.or_eq_true _ _).mp letter with alpha | under
  · rcases (Bool.or_eq_true _ _).mp (show (c.isUpper || c.isLower) = true from alpha) with
      upper | lower
    · have high : 'A'.val ≤ c.val := (of_decide_eq_true upper).1
      exact absurd (UInt32.le_trans high low) (by decide)
    · have high : 'a'.val ≤ c.val := of_decide_eq_true ((Bool.and_eq_true _ _).mp lower).1
      exact absurd (UInt32.le_trans high low) (by decide)
  · obtain rfl : c = '_' := of_decide_eq_true under
    exact absurd digit (by decide)

/-- A mark is in none of the other classes. -/
theorem of_ofChar?_eq_some {c : Char} {m : Mark} (mark : Mark.ofChar? c = some m) :
    isBlank c = false ∧ c ≠ '"' ∧ c.isDigit = false ∧ isWordStart c = false := by
  unfold Mark.ofChar? at mark
  split at mark
  case h_16 => cases mark
  all_goals exact ⟨by decide, by decide, by decide, by decide⟩

/-! ## The first piece by its lead -/

theorem splitFirst_blank {c : Char} (blank : isBlank c = true) (rest : List Char) :
    splitFirst c rest = (.blank c, rest) := by
  unfold splitFirst
  rw [if_pos blank]

theorem splitFirst_quote (rest : List Char) : splitFirst '"' rest = splitString rest := by
  unfold splitFirst
  rw [if_neg (by decide), if_pos rfl]

theorem splitFirst_digit {c : Char} (digit : c.isDigit = true) (rest : List Char) :
    splitFirst c rest = splitNumber c rest := by
  unfold splitFirst
  rw [if_neg (Bool.eq_false_iff.mp (isBlank_of_isDigit digit)),
    if_neg (ne_quote_of_isDigit digit), if_pos digit]

theorem splitFirst_letter {c : Char} (letter : isWordStart c = true) (rest : List Char) :
    splitFirst c rest = splitWord c rest := by
  unfold splitFirst
  rw [if_neg (Bool.eq_false_iff.mp (isBlank_of_isWordStart letter)),
    if_neg (ne_quote_of_isWordStart letter),
    if_neg (Bool.eq_false_iff.mp (isDigit_of_isWordStart letter)), if_pos letter]

theorem splitFirst_comment (rest : List Char) :
    splitFirst '/' ('/' :: rest) = splitComment rest := rfl

theorem splitFirst_mark {c : Char} {m : Mark} (mark : Mark.ofChar? c = some m) {rest : List Char}
    (single : m = .slash → rest.head? ≠ some '/') : splitFirst c rest = splitMark c m rest := by
  obtain ⟨notBlank, notQuote, notDigit, notLetter⟩ := of_ofChar?_eq_some mark
  unfold splitFirst
  rw [if_neg (Bool.eq_false_iff.mp notBlank), if_neg notQuote,
    if_neg (Bool.eq_false_iff.mp notDigit), if_neg (Bool.eq_false_iff.mp notLetter), mark]
  split
  · rename_i same
    exact absurd rfl (single (Option.some.inj same))
  · rename_i same _
    rw [Option.some.inj same]
  · rename_i same
    cases same

theorem splitFirst_stray {c : Char} (notBlank : isBlank c = false) (notQuote : c ≠ '"')
    (notDigit : c.isDigit = false) (notLetter : isWordStart c = false)
    (notMark : Mark.ofChar? c = none) (rest : List Char) :
    splitFirst c rest = (.stray c, rest) := by
  unfold splitFirst
  rw [if_neg (Bool.eq_false_iff.mp notBlank), if_neg notQuote,
    if_neg (Bool.eq_false_iff.mp notDigit), if_neg (Bool.eq_false_iff.mp notLetter), notMark]

/-- No piece of a source is an end of it. -/
theorem splitFirst_ne_endOfFile (c : Char) (rest text : List Char) :
    (splitFirst c rest).1 ≠ .lexeme .endOfFile text := by
  cases lead c with
  | blank is => simp [splitFirst_blank is]
  | quote is =>
    rw [is, splitFirst_quote, splitString]
    split <;> simp
  | digit is =>
    rw [splitFirst_digit is]
    simp only [splitNumber]
    split <;> simp
  | letter is =>
    rw [splitFirst_letter is]
    simp only [splitWord, wordKind]
    split <;> simp
  | mark m is =>
    by_cases comment : m = .slash ∧ rest.head? = some '/'
    · obtain ⟨rfl, slash⟩ := comment
      obtain ⟨body, rfl⟩ := List.head?_eq_some_iff.mp slash
      rw [eq_slash_of_ofChar? is, splitFirst_comment]
      simp [splitComment]
    · rw [splitFirst_mark is fun h h' => comment ⟨h, h'⟩]
      unfold splitMark
      split <;> simp
  | nothing notBlank notQuote notDigit notLetter notMark =>
    simp [splitFirst_stray notBlank notQuote notDigit notLetter notMark]

theorem ne_endOfFile_of_mem_split {source text : List Char} {p : Piece} (mem : p ∈ split source) :
    p ≠ .lexeme .endOfFile text := by
  fun_induction split source with
  | case1 => cases mem
  | case2 c rest ih =>
    rcases List.mem_cons.mp mem with rfl | later
    · exact splitFirst_ne_endOfFile c rest text
    · exact ih later

end LoxLang.Source
