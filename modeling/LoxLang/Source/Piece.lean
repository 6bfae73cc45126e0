import LoxLang.Token

/-!
# Pieces of a source

A source is a concatenation of **pieces**: blanks, comments, lexemes, and
stretches that are no lexeme. `split` cuts a source into its pieces, at each
point taking the longest piece that can begin there; nothing is dropped, so the
texts of the pieces spell the source again (`flatMap_text_split`). Lines play no
part here.
-/

namespace LoxLang.Source

/-! ## Characters -/

/-- Characters that separate lexemes and mean nothing else. -/
def isBlank (c : Char) : Bool :=
  c = ' ' || c = '\r' || c = '\t' || c = '\n'

/-- Characters with which a word begins: the ASCII letters and the underscore. -/
def isWordStart (c : Char) : Bool :=
  c.isAlpha || c = '_'

/-- Characters with which a word goes on. -/
def isWordPart (c : Char) : Bool :=
  isWordStart c || c.isDigit

/-! ## Pieces -/

/-- A **piece** of a source. -/
inductive Piece where
  | blank (c : Char)
  /-- What follows `//` on its line. -/
  | comment (body : List Char)
  | lexeme (kind : TokenKind) (text : List Char)
  /-- A character that begins no lexeme. -/
  | stray (c : Char)
  /-- What follows a quote that nothing closes. -/
  | unclosed (body : List Char)

namespace Piece

/-- The stretch of source that a piece stands for. -/
def text : Piece → List Char
  | .blank c | .stray c => [c]
  | .comment body => '/' :: '/' :: body
  | .lexeme _ text => text
  | .unclosed body => '"' :: body

/-- The line breaks within a piece. -/
def lineBreaks (p : Piece) : Nat :=
  p.text.count '\n'

end Piece

/-! ## The longest piece at a point -/

/-- The string after an opening quote, or everything when nothing closes it. -/
def splitString (rest : List Char) : Piece × List Char :=
  let body := rest.takeWhile (· != '"')
  match rest.dropWhile (· != '"') with
  | [] => (.unclosed body, [])
  | close :: after =>
    (.lexeme (.string (String.ofList body)) ('"' :: body ++ [close]), after)

/-- The digits of a fraction, which is a dot with at least one digit after it, and
what follows them. -/
def splitFraction? : List Char → Option (List Char × List Char)
  | '.' :: d :: rest =>
    if d.isDigit then some (d :: rest.takeWhile Char.isDigit, rest.dropWhile Char.isDigit)
    else none
  | _ => none

/-- The number with a given first digit. -/
def splitNumber (digit : Char) (rest : List Char) : Piece × List Char :=
  let whole := digit :: rest.takeWhile Char.isDigit
  let after := rest.dropWhile Char.isDigit
  match splitFraction? after with
  | none => (.lexeme (.number (Number.ofDigits whole [])) whole, after)
  | some (fraction, after) =>
    (.lexeme (.number (Number.ofDigits whole fraction)) (whole ++ '.' :: fraction), after)

/-- The kind of a word: the keyword it spells, or an identifier. -/
def wordKind (word : List Char) : TokenKind :=
  match Keyword.ofSpelling? (String.ofList word) with
  | some keyword => .keyword keyword
  | none => .identifier

/-- The word with a given first letter. -/
def splitWord (letter : Char) (rest : List Char) : Piece × List Char :=
  let word := letter :: rest.takeWhile isWordPart
  (.lexeme (wordKind word) word, rest.dropWhile isWordPart)

/-- The mark that a character begins, with a `=` after it when the two are one
mark. -/
def splitMark (c : Char) (mark : Mark) (rest : List Char) : Piece × List Char :=
  match mark.withEqual?, rest with
  | some longer, '=' :: after => (.lexeme (.mark longer) [c, '='], after)
  | _, _ => (.lexeme (.mark mark) [c], rest)

/-- The comment after its two slashes, up to the end of the line. -/
def splitComment (rest : List Char) : Piece × List Char :=
  (.comment (rest.takeWhile (· != '\n')), rest.dropWhile (· != '\n'))

/-- The longest piece that begins with a character, and what follows it. -/
def splitFirst (c : Char) (rest : List Char) : Piece × List Char :=
  if isBlank c then (.blank c, rest)
  else if c = '"' then splitString rest
  else if c.isDigit then splitNumber c rest
  else if isWordStart c then splitWord c rest
  else match Mark.ofChar? c, rest with
    | some .slash, '/' :: after => splitComment after
    | some mark, _ => splitMark c mark rest
    | none, _ => (.stray c, rest)

/-! ## Nothing is dropped -/

theorem splitString_text (rest : List Char) :
    (splitString rest).1.text ++ (splitString rest).2 = '"' :: rest := by
  have h : rest.takeWhile (· != '"') ++ rest.dropWhile (· != '"') = rest :=
    List.takeWhile_append_dropWhile
  unfold splitString
  split
  · rename_i hnil
    rw [hnil, List.append_nil] at h
    simp [Piece.text, h]
  · rename_i close after hcons
    rw [hcons] at h
    simp [Piece.text, h]

theorem splitFraction?_text {rest fraction after : List Char}
    (h : splitFraction? rest = some (fraction, after)) : '.' :: fraction ++ after = rest := by
  unfold splitFraction? at h
  split at h
  · split at h
    · obtain ⟨rfl, rfl⟩ := Prod.mk.inj (Option.some.inj h)
      simp
    · cases h
  · cases h

theorem splitNumber_text (digit : Char) (rest : List Char) :
    (splitNumber digit rest).1.text ++ (splitNumber digit rest).2 = digit :: rest := by
  have h : rest.takeWhile Char.isDigit ++ rest.dropWhile Char.isDigit = rest :=
    List.takeWhile_append_dropWhile
  simp only [splitNumber]
  split
  · simp [Piece.text, h]
  · rename_i fraction after hsome
    have hf := splitFraction?_text hsome
    rw [← hf] at h
    simpa [Piece.text] using h

theorem splitWord_text (letter : Char) (rest : List Char) :
    (splitWord letter rest).1.text ++ (splitWord letter rest).2 = letter :: rest := by
  simp [splitWord, Piece.text]

theorem splitMark_text (c : Char) (mark : Mark) (rest : List Char) :
    (splitMark c mark rest).1.text ++ (splitMark c mark rest).2 = c :: rest := by
  unfold splitMark
  split <;> simp [Piece.text]

theorem splitComment_text (rest : List Char) :
    (splitComment rest).1.text ++ (splitComment rest).2 = '/' :: '/' :: rest := by
  simp [splitComment, Piece.text]

/-- Only the slash is the mark of a slash. -/
theorem eq_slash_of_ofChar? {c : Char} (h : Mark.ofChar? c = some .slash) : c = '/' := by
  unfold Mark.ofChar? at h
  split at h <;> simp_all

/-- The first piece and what follows it spell the source. -/
theorem splitFirst_text (c : Char) (rest : List Char) :
    (splitFirst c rest).1.text ++ (splitFirst c rest).2 = c :: rest := by
  unfold splitFirst
  split
  · rfl
  split
  · rename_i h
    rw [splitString_text, h]
  split
  · exact splitNumber_text c rest
  split
  · exact splitWord_text c rest
  split
  · rename_i after h
    rw [splitComment_text, eq_slash_of_ofChar? h]
  · exact splitMark_text c _ _
  · rfl

/-- A piece is never empty. -/
theorem splitFirst_text_ne_nil (c : Char) (rest : List Char) :
    (splitFirst c rest).1.text ≠ [] := by
  unfold splitFirst
  split
  · simp [Piece.text]
  split
  · unfold splitString
    split <;> simp [Piece.text]
  split
  · simp only [splitNumber]
    split <;> simp [Piece.text]
  split
  · simp [splitWord, Piece.text]
  split
  · simp [splitComment, Piece.text]
  · unfold splitMark
    split <;> simp [Piece.text]
  · simp [Piece.text]

/-- What follows the first piece is shorter than the source. -/
theorem length_splitFirst_lt (c : Char) (rest : List Char) :
    (splitFirst c rest).2.length < (c :: rest).length := by
  have hlen := congrArg List.length (splitFirst_text c rest)
  have hpos := List.length_pos_iff.2 (splitFirst_text_ne_nil c rest)
  rw [List.length_append] at hlen
  omega

/-! ## All pieces -/

/-- The pieces of a source, in order. -/
def split : List Char → List Piece
  | [] => []
  | c :: rest => (splitFirst c rest).1 :: split (splitFirst c rest).2
termination_by source => source.length
decreasing_by exact length_splitFirst_lt c rest

@[simp] theorem split_nil : split [] = [] := by
  rw [split]

@[simp] theorem split_cons (c : Char) (rest : List Char) :
    split (c :: rest) = (splitFirst c rest).1 :: split (splitFirst c rest).2 := by
  rw [split]

/-- The texts of the pieces spell the source. -/
theorem flatMap_text_split (source : List Char) : (split source).flatMap Piece.text = source := by
  fun_induction split source with
  | case1 => rfl
  | case2 c rest ih => rw [List.flatMap_cons, ih, splitFirst_text]

end LoxLang.Source
