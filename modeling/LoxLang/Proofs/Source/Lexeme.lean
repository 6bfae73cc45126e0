import LoxLang.Proofs.Source.Lead
import Mathlib.Data.List.TakeWhile

/-!
# The lexical grammar

Which texts are lexemes, and of which kind (`IsLexeme`), said without regard to how a source is cut.
A lexeme is a mark, a word, a quoted text or a numeral; a word is a keyword if it is spelled like
one, and else an identifier.

The first character of a lexeme decides which of the four it is (`IsLexeme.cons_cases`), since the
classes of characters exclude one another. So there is one inversion for each class of first
character, and a text is a lexeme of at most one kind (`IsLexeme.kind_unique`).
-/

namespace LoxLang

/-! ## Spellings -/

/-- The mark as it stands in source text. -/
def Mark.spelling : Mark → String
  | .leftParen => "("
  | .rightParen => ")"
  | .leftBrace => "\x7b"
  | .rightBrace => "\x7d"
  | .comma => ","
  | .dot => "."
  | .minus => "-"
  | .plus => "+"
  | .semicolon => ";"
  | .slash => "/"
  | .star => "*"
  | .bang => "!"
  | .bangEqual => "!="
  | .equal => "="
  | .equalEqual => "=="
  | .greater => ">"
  | .greaterEqual => ">="
  | .less => "<"
  | .lessEqual => "<="

/-- A mark is one character, or a shorter mark and a `=`. -/
theorem Mark.spelling_cases (m : Mark) :
    (∃ c, Mark.ofChar? c = some m ∧ m.spelling.toList = [c]) ∨
      ∃ c shorter, Mark.ofChar? c = some shorter ∧ shorter.withEqual? = some m ∧
        m.spelling.toList = [c, '='] := by
  cases m
  case bangEqual => exact .inr ⟨'!', .bang, rfl, rfl, rfl⟩
  case equalEqual => exact .inr ⟨'=', .equal, rfl, rfl, rfl⟩
  case greaterEqual => exact .inr ⟨'>', .greater, rfl, rfl, rfl⟩
  case lessEqual => exact .inr ⟨'<', .less, rfl, rfl, rfl⟩
  all_goals exact .inl ⟨_, rfl, rfl⟩

theorem Mark.spelling_of_ofChar? {c : Char} {m : Mark} (mark : Mark.ofChar? c = some m) :
    m.spelling.toList = [c] := by
  unfold Mark.ofChar? at mark
  split at mark <;> cases mark <;> rfl

theorem Mark.spelling_of_withEqual? {c : Char} {m longer : Mark} (mark : Mark.ofChar? c = some m)
    (grows : m.withEqual? = some longer) : longer.spelling.toList = [c, '='] := by
  unfold Mark.ofChar? at mark
  split at mark <;> cases mark <;> cases grows <;> rfl

/-- A keyword is a word. -/
theorem Keyword.spelling_isWord (w : Keyword) :
    ∃ c body, w.spelling.toList = c :: body ∧ Source.isWordStart c = true ∧
      ∀ d ∈ body, Source.isWordPart d = true := by
  cases w <;> exact ⟨_, _, rfl, rfl, List.all_eq_true.mp rfl⟩

theorem Keyword.ofSpelling?_spelling (w : Keyword) : Keyword.ofSpelling? w.spelling = some w := by
  cases w <;> rfl

theorem Keyword.spelling_of_ofSpelling? {text : String} {w : Keyword}
    (found : Keyword.ofSpelling? text = some w) : w.spelling = text := by
  have spelled := List.find?_some found
  exact of_decide_eq_true spelled

namespace Source

/-! ## Lexemes -/

/-- A fraction with the dot before it; where it has no digits there is no dot. -/
def pointed : List Char → List Char
  | [] => []
  | fraction => '.' :: fraction

theorem of_mem_pointed {fraction : List Char} {d : Char} (mem : d ∈ pointed fraction) :
    d = '.' ∨ d ∈ fraction := by
  cases fraction with
  | nil => cases mem
  | cons c fraction => exact List.mem_cons.mp mem

/-- The texts of the lexemes of each kind. There is none for the end of a source. -/
inductive IsLexeme : TokenKind → List Char → Prop where
  | mark (m : Mark) : IsLexeme (.mark m) m.spelling.toList
  | keyword (w : Keyword) : IsLexeme (.keyword w) w.spelling.toList
  | identifier {c : Char} {body : List Char} (start : isWordStart c = true)
      (parts : ∀ d ∈ body, isWordPart d = true)
      (free : ∀ w : Keyword, w.spelling.toList ≠ c :: body) : IsLexeme .identifier (c :: body)
  | string {body : List Char} (inside : '"' ∉ body) :
      IsLexeme (.string (String.ofList body)) ('"' :: body ++ ['"'])
  | number {whole fraction : List Char} (nonempty : whole ≠ [])
      (digits : ∀ d ∈ whole, d.isDigit = true) (decimals : ∀ d ∈ fraction, d.isDigit = true) :
      IsLexeme (.number (Number.ofDigits whole fraction)) (whole ++ pointed fraction)

/-- A word is a lexeme of its kind. -/
theorem isLexeme_word {c : Char} {body : List Char} (start : isWordStart c = true)
    (parts : ∀ d ∈ body, isWordPart d = true) : IsLexeme (wordKind (c :: body)) (c :: body) := by
  unfold wordKind
  split
  · rename_i w found
    have spelled := congrArg String.toList (Keyword.spelling_of_ofSpelling? found)
    rw [String.toList_ofList] at spelled
    exact spelled ▸ .keyword w
  · rename_i missing
    refine .identifier start parts ?_
    intro w spelled
    rw [← spelled, String.ofList_toList, Keyword.ofSpelling?_spelling] at missing
    cases missing

theorem wordKind_spelling (w : Keyword) : wordKind w.spelling.toList = .keyword w := by
  rw [wordKind, String.ofList_toList, Keyword.ofSpelling?_spelling]

theorem wordKind_of_free {word : List Char} (free : ∀ w : Keyword, w.spelling.toList ≠ word) :
    wordKind word = .identifier := by
  unfold wordKind
  split
  · rename_i w found
    have spelled := congrArg String.toList (Keyword.spelling_of_ofSpelling? found)
    rw [String.toList_ofList] at spelled
    exact absurd spelled (free w)
  · rfl

/-! ## Lexemes by their first character -/

/-- The four families of lexemes, by the first character and what follows it. -/
theorem IsLexeme.cons_cases {kind : TokenKind} {c : Char} {text : List Char}
    (is : IsLexeme kind (c :: text)) :
    (∃ m, Mark.ofChar? c = some m ∧ (text = [] ∧ kind = .mark m ∨
        ∃ longer, m.withEqual? = some longer ∧ text = ['='] ∧ kind = .mark longer)) ∨
      (isWordStart c = true ∧ (∀ d ∈ text, isWordPart d = true) ∧ kind = wordKind (c :: text)) ∨
      (c = '"' ∧ ∃ body, '"' ∉ body ∧ text = body ++ ['"'] ∧
        kind = .string (String.ofList body)) ∨
      (c.isDigit = true ∧ ∃ whole fraction, (∀ d ∈ whole, d.isDigit = true) ∧
        (∀ d ∈ fraction, d.isDigit = true) ∧ text = whole ++ pointed fraction ∧
        kind = .number (Number.ofDigits (c :: whole) fraction)) := by
  generalize whole : c :: text = full at is
  cases is with
  | mark m =>
    left
    rcases m.spelling_cases with ⟨d, single, spelled⟩ | ⟨d, shorter, single, longer, spelled⟩ <;>
      obtain ⟨rfl, rfl⟩ := List.cons.inj (whole.trans spelled)
    · exact ⟨m, single, .inl ⟨rfl, rfl⟩⟩
    · exact ⟨shorter, single, .inr ⟨m, longer, rfl, rfl⟩⟩
  | keyword w =>
    right; left
    obtain ⟨d, body, spelled, start, parts⟩ := w.spelling_isWord
    obtain ⟨rfl, rfl⟩ := List.cons.inj (whole.trans spelled)
    exact ⟨start, parts, (wordKind_spelling w).symm⟩
  | identifier start parts free =>
    right; left
    cases whole
    exact ⟨start, parts, (wordKind_of_free free).symm⟩
  | @string body inside =>
    right; right; left
    cases whole
    exact ⟨rfl, body, inside, rfl, rfl⟩
  | @number digits fraction nonempty areDigits decimals =>
    right; right; right
    obtain ⟨d, digits, rfl⟩ := List.exists_cons_of_ne_nil nonempty
    cases whole
    exact ⟨areDigits c List.mem_cons_self, digits, fraction,
      fun d mem => areDigits d (List.mem_cons_of_mem _ mem), decimals, rfl, rfl⟩

theorem IsLexeme.ne_nil {kind : TokenKind} : ¬ IsLexeme kind [] := by
  intro is
  generalize empty : ([] : List Char) = text at is
  cases is with
  | mark m => cases m <;> cases empty
  | keyword w => cases w <;> cases empty
  | identifier => cases empty
  | string => cases empty
  | number nonempty => exact nonempty (List.append_eq_nil_iff.mp empty.symm).1

variable {kind : TokenKind} {c : Char} {text : List Char}

theorem IsLexeme.of_mark {m : Mark} (mark : Mark.ofChar? c = some m)
    (is : IsLexeme kind (c :: text)) :
    text = [] ∧ kind = .mark m ∨
      ∃ longer, m.withEqual? = some longer ∧ text = ['='] ∧ kind = .mark longer := by
  obtain ⟨-, notQuote, notDigit, notLetter⟩ := of_ofChar?_eq_some mark
  rcases is.cons_cases with ⟨m', mark', found⟩ | ⟨letter, -⟩ | ⟨quote, -⟩ | ⟨digit, -⟩
  · obtain rfl := Option.some.inj (mark'.symm.trans mark)
    exact found
  · exact absurd letter (Bool.eq_false_iff.mp notLetter)
  · exact absurd quote notQuote
  · exact absurd digit (Bool.eq_false_iff.mp notDigit)

theorem IsLexeme.of_letter (letter : isWordStart c = true) (is : IsLexeme kind (c :: text)) :
    (∀ d ∈ text, isWordPart d = true) ∧ kind = wordKind (c :: text) := by
  rcases is.cons_cases with ⟨m, mark, -⟩ | ⟨-, found⟩ | ⟨quote, -⟩ | ⟨digit, -⟩
  · exact absurd letter (Bool.eq_false_iff.mp (of_ofChar?_eq_some mark).2.2.2)
  · exact found
  · exact absurd quote (ne_quote_of_isWordStart letter)
  · exact absurd digit (Bool.eq_false_iff.mp (isDigit_of_isWordStart letter))

theorem IsLexeme.of_quote (is : IsLexeme kind ('"' :: text)) :
    ∃ body, '"' ∉ body ∧ text = body ++ ['"'] ∧ kind = .string (String.ofList body) := by
  rcases is.cons_cases with ⟨m, mark, -⟩ | ⟨letter, -⟩ | ⟨-, found⟩ | ⟨digit, -⟩
  · exact absurd rfl (of_ofChar?_eq_some mark).2.1
  · exact absurd letter (by decide)
  · exact found
  · exact absurd digit (by decide)

theorem IsLexeme.of_digit (digit : c.isDigit = true) (is : IsLexeme kind (c :: text)) :
    ∃ whole fraction, (∀ d ∈ whole, d.isDigit = true) ∧ (∀ d ∈ fraction, d.isDigit = true) ∧
      text = whole ++ pointed fraction ∧
      kind = .number (Number.ofDigits (c :: whole) fraction) := by
  rcases is.cons_cases with ⟨m, mark, -⟩ | ⟨letter, -⟩ | ⟨quote, -⟩ | ⟨-, found⟩
  · exact absurd digit (Bool.eq_false_iff.mp (of_ofChar?_eq_some mark).2.2.1)
  · exact absurd digit (Bool.eq_false_iff.mp (isDigit_of_isWordStart letter))
  · exact absurd quote (ne_quote_of_isDigit digit)
  · exact found

/-- No lexeme begins with a blank. -/
theorem IsLexeme.not_isBlank (is : IsLexeme kind (c :: text)) : isBlank c = false := by
  rcases is.cons_cases with ⟨m, mark, -⟩ | ⟨letter, -⟩ | ⟨rfl, -⟩ | ⟨digit, -⟩
  · exact (of_ofChar?_eq_some mark).1
  · exact isBlank_of_isWordStart letter
  · decide
  · exact isBlank_of_isDigit digit

/-- Only strings have blanks in them. -/
theorem IsLexeme.of_isBlank {d : Char} (is : IsLexeme kind text) (mem : d ∈ text)
    (blank : isBlank d = true) :
    ∃ body, '"' ∉ body ∧ text = '"' :: body ++ ['"'] ∧ kind = .string (String.ofList body) := by
  have notPart : isWordPart d = false := by
    rcases eq_of_isBlank blank with rfl | rfl | rfl | rfl <;> decide
  have notDigit : d.isDigit = false := by
    apply Bool.eq_false_iff.mpr
    intro digit
    exact absurd blank (Bool.eq_false_iff.mp (isBlank_of_isDigit digit))
  cases text with
  | nil => cases mem
  | cons c text =>
    have later : d ∈ text := by
      refine (List.mem_cons.mp mem).resolve_left ?_
      rintro rfl
      exact absurd blank (Bool.eq_false_iff.mp is.not_isBlank)
    rcases is.cons_cases with ⟨m, -, found⟩ | ⟨-, parts, -⟩ | ⟨rfl, body, inside, rfl, rfl⟩ |
      ⟨-, whole, fraction, digits, decimals, rfl, -⟩
    · rcases found with ⟨rfl, -⟩ | ⟨_, -, rfl, -⟩
      · cases later
      · cases List.mem_singleton.mp later
        exact absurd blank (by decide)
    · exact absurd (parts d later) (Bool.eq_false_iff.mp notPart)
    · exact ⟨body, inside, rfl, rfl⟩
    · rcases List.mem_append.mp later with h | h
      · exact absurd (digits d h) (Bool.eq_false_iff.mp notDigit)
      · rcases of_mem_pointed h with rfl | h
        · exact absurd blank (by decide)
        · exact absurd (decimals d h) (Bool.eq_false_iff.mp notDigit)

/-- A character that begins a lexeme leads something. -/
theorem IsLexeme.not_nothing (is : IsLexeme kind (c :: text)) (notQuote : c ≠ '"')
    (notDigit : c.isDigit = false) (notLetter : isWordStart c = false) :
    Mark.ofChar? c ≠ none := by
  rcases is.cons_cases with ⟨m, mark, -⟩ | ⟨letter, -⟩ | ⟨quote, -⟩ | ⟨digit, -⟩
  · rw [mark]
    exact Option.some_ne_none m
  · exact absurd letter (Bool.eq_false_iff.mp notLetter)
  · exact absurd quote notQuote
  · exact absurd digit (Bool.eq_false_iff.mp notDigit)

/-! ## One kind for a text -/

/-- The digits of a numeral before its dot. -/
theorem takeWhile_isDigit_append_pointed {whole : List Char}
    (digits : ∀ d ∈ whole, d.isDigit = true) (fraction : List Char) :
    (whole ++ pointed fraction).takeWhile Char.isDigit = whole := by
  rw [List.takeWhile_append_of_pos digits]
  cases fraction <;> simp [pointed]

theorem pointed_injective {fraction fraction' : List Char}
    (same : pointed fraction = pointed fraction') : fraction = fraction' := by
  match fraction, fraction' with
  | [], [] => rfl
  | [], _ :: _ => cases same
  | _ :: _, [] => cases same
  | _ :: _, _ :: _ => exact (List.cons.inj same).2

/-- A text is a lexeme of at most one kind. -/
theorem IsLexeme.kind_unique {kind' : TokenKind} (is : IsLexeme kind text)
    (is' : IsLexeme kind' text) : kind = kind' := by
  cases text with
  | nil => exact absurd is IsLexeme.ne_nil
  | cons c text =>
    rcases is.cons_cases with ⟨m, mark, found⟩ | ⟨letter, -, rfl⟩ | ⟨rfl, body, -, spelled, rfl⟩ |
      ⟨digit, whole, fraction, digits, -, spelled, rfl⟩
    · rcases found with ⟨alone, rfl⟩ | ⟨longer, grows, alone, rfl⟩ <;>
        rcases is'.of_mark mark with ⟨alone', rfl⟩ | ⟨longer', grows', alone', rfl⟩
      · rfl
      · cases alone.symm.trans alone'
      · cases alone.symm.trans alone'
      · rw [Option.some.inj (grows.symm.trans grows')]
    · exact (is'.of_letter letter).2.symm
    · obtain ⟨body', -, spelled', rfl⟩ := is'.of_quote
      rw [List.append_cancel_right (spelled.symm.trans spelled')]
    · obtain ⟨whole', fraction', digits', -, spelled', rfl⟩ := is'.of_digit digit
      have same := spelled.symm.trans spelled'
      have front := congrArg (List.takeWhile Char.isDigit) same
      rw [takeWhile_isDigit_append_pointed digits,
        takeWhile_isDigit_append_pointed digits'] at front
      subst front
      rw [pointed_injective (List.append_cancel_left same)]

/-- Just the words that are spelled like a keyword are that keyword. -/
theorem IsLexeme.eq_keyword_iff (is : IsLexeme kind text) (w : Keyword) :
    kind = .keyword w ↔ text = w.spelling.toList := by
  constructor
  · rintro rfl
    cases is
    rfl
  · rintro rfl
    exact is.kind_unique (.keyword w)

/-- What a string denotes is what stands between its quotes. -/
theorem IsLexeme.eq_of_string {contents : String} (is : IsLexeme (.string contents) text) :
    text = '"' :: contents.toList ++ ['"'] := by
  cases is
  rw [String.toList_ofList]

end Source

end LoxLang
