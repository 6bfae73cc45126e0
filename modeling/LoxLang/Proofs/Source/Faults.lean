import LoxLang.Proofs.Source.Segmentation

/-!
# Lexical errors

A piece is in error if it is a character that begins no lexeme, or a quote that nothing closes. A
source reports one error for each of them, in their order (`errors_gives`).

An error **loses only its own text**. Blank out the pieces in error, but for their line breaks: what
is left scans without an error, and to the tokens of the source (`scan_blanked`). All other pieces
stand where they stood. The one thing a blank could do to them is to let a longer lexeme be read,
and only strings have blanks in them, which end at the first quote behind the one they begin with.

The numerals of a source are digits, and a dot with more digits at most. So a conversion that takes
these refuses none of them, and no other error can come of it. Converting numerals is left to a
function of their text here (`Item.converted`); the scanner's own is one that takes them
(`scan_converted`).
-/

namespace LoxLang.Source

/-! ## Pieces in error -/

/-- Whether a piece is in error: a character that begins no lexeme, or a quote that nothing
closes. -/
def Piece.isFault : Piece → Bool
  | .stray _ | .unclosed _ => true
  | .blank _ | .comment _ | .lexeme .. => false

/-- A source has a lexical error if a piece of it is in error, cut as the lexical grammar has it. -/
def HasFault (source : String) : Prop :=
  ∃ pieces, Segments pieces source.toList ∧ ∃ p ∈ pieces, p.isFault = true

/-- One error for each piece in error, in their order. -/
theorem errors_gives (line : Nat) (pieces : List Piece) :
    List.Forall₂ Gives (pieces.filter Piece.isFault)
      ((errors (stamped line pieces)).map .error) := by
  induction pieces generalizing line with
  | nil => exact .nil
  | cons p rest ih =>
    cases p with
    | blank c => exact ih _
    | comment body => exact ih _
    | lexeme kind text => exact ih _
    | stray c => exact .cons .stray (ih _)
    | unclosed body => exact .cons .unclosed (ih _)

theorem errors_scan_eq_nil_iff {source : String} :
    errors (scan source) = [] ↔ ¬ HasFault source := by
  have cut : Segments (split source.toList) source.toList := split_eq_iff.mp rfl
  have count := (errors_gives 1 (split source.toList)).length_eq
  rw [List.length_map, ← errors_scan] at count
  rw [← List.length_eq_zero_iff, ← count, List.length_eq_zero_iff, List.filter_eq_nil_iff]
  constructor
  · rintro clean ⟨pieces, cut', p, mem, fault⟩
    rw [← split_eq_iff.mpr cut'] at mem
    exact clean p mem fault
  · intro clean p mem fault
    exact clean ⟨_, cut, p, mem, fault⟩

/-- Every lexical error of a source is about a line, and words a lexical fault. No blank is
stray. -/
theorem exists_of_mem_errors {source : String} {d : Diagnostic} (mem : d ∈ errors (scan source)) :
    ∃ line fault, d = .lexical line (LexicalFault.message fault) ∧
      ∀ c, fault = .strayCharacter c → isBlank c = false := by
  rw [errors_scan] at mem
  obtain ⟨_, p, _, split, gives⟩ := exists_piece_of_mem_stamped (mem_errors_iff.mp mem)
  have stands := (split_eq_iff.mp split).stands_of_append
  cases gives with
  | @stray c line =>
    cases stands with
    | stray notBlank _ =>
      refine ⟨line, .strayCharacter c, rfl, ?_⟩
      rintro _ ⟨⟩
      exact notBlank
  | @unclosed body line => exact ⟨line, .unterminatedString, rfl, fun _ other => nomatch other⟩

/-- The two lexical faults are told apart by their wording. -/
theorem strayCharacter_message_ne (c : Char) :
    (LexicalFault.strayCharacter c).message ≠ LexicalFault.unterminatedString.message := by
  intro same
  have chars : ("Unexpected character '" ++ String.singleton c ++ "'.").toList =
      "Unterminated string.".toList := congrArg String.toList same
  rw [String.append_assoc, String.toList_append] at chars
  have front := congrArg (List.take 3) chars
  rw [List.take_append_of_le_length (by decide +kernel)] at front
  exact absurd front (by decide +kernel)

/-! ## Blanking out -/

/-- A blank in the place of a character. Line breaks stay. -/
def blankOut (c : Char) : Char :=
  if c = '\n' then c else ' '

theorem isBlank_blankOut (c : Char) : isBlank (blankOut c) = true := by
  unfold blankOut
  split
  · rename_i newline
    rw [newline]
    decide
  · decide

theorem blankOut_eq_newline_iff {c : Char} : blankOut c = '\n' ↔ c = '\n' := by
  unfold blankOut
  split <;> simp_all

theorem count_newline_map_blankOut (text : List Char) :
    (text.map blankOut).count '\n' = text.count '\n' := by
  induction text with
  | nil => rfl
  | cons c text ih =>
    simp only [List.map_cons, List.count_cons, ih, beq_iff_eq, blankOut_eq_newline_iff]

/-- The text of a piece, blanked out if it is in error. -/
def Piece.blanked (p : Piece) : List Char :=
  if p.isFault then p.text.map blankOut else p.text

/-- The pieces of that text. -/
def Piece.mended (p : Piece) : List Piece :=
  if p.isFault then p.text.map fun c => .blank (blankOut c) else [p]

/-- A source some of whose characters are blanked out. -/
def Blanks (source source' : List Char) : Prop :=
  List.Forall₂ (fun c c' => c' = c ∨ c' = blankOut c) source source'

theorem Blanks.refl (source : List Char) : Blanks source source :=
  List.forall₂_same.mpr fun _ _ => .inl rfl

theorem Blanks.append {first first' second second' : List Char} (blanks : Blanks first first')
    (blanks' : Blanks second second') : Blanks (first ++ second) (first' ++ second') :=
  List.rel_append blanks blanks'

theorem blanks_flatMap (pieces : List Piece) :
    Blanks (pieces.flatMap Piece.text) (pieces.flatMap Piece.blanked) := by
  induction pieces with
  | nil => exact .nil
  | cons p rest ih =>
    rw [List.flatMap_cons, List.flatMap_cons]
    refine Blanks.append ?_ ih
    unfold Piece.blanked
    split
    · exact List.forall₂_map_right_iff.mpr (List.forall₂_same.mpr fun _ _ => .inr rfl)
    · exact .refl _

/-- What begins a blanked source and has no blank in it begins the source. -/
theorem Blanks.begins {source source' front : List Char} (blanks : Blanks source source')
    (clear : ∀ c ∈ front, isBlank c = false) (is : front <+: source') : front <+: source := by
  induction blanks generalizing front with
  | nil => exact is
  | @cons c c' source source' alike _ ih =>
    cases front with
    | nil => exact List.nil_prefix
    | cons d front =>
      obtain ⟨first, later⟩ := List.forall_mem_cons.mp clear
      obtain ⟨rfl, behind⟩ := List.cons_prefix_cons.mp is
      rcases alike with rfl | rfl
      · exact List.cons_prefix_cons.mpr ⟨rfl, ih later behind⟩
      · rw [isBlank_blankOut] at first
        cases first

/-- What a comment or the source ends at stays. -/
theorem Blanks.ends {source source' : List Char} (blanks : Blanks source source')
    (ends : source = [] ∨ source.head? = some '\n') :
    source' = [] ∨ source'.head? = some '\n' := by
  cases blanks with
  | nil => exact .inl rfl
  | cons alike _ =>
    obtain rfl := Option.some.inj (ends.resolve_left (List.cons_ne_nil _ _))
    rcases alike with rfl | rfl
    · exact .inr rfl
    · exact .inr rfl

/-! ## Pieces stay where they stood -/

/-- A lexeme that begins with another has no blank behind it. -/
theorem IsLexeme.not_isBlank_of_append {kind kind' : TokenKind} {text more : List Char}
    (is : IsLexeme kind text) (longer : IsLexeme kind' (text ++ more)) :
    ∀ c ∈ more, isBlank c = false := by
  intro c mem
  apply Bool.eq_false_iff.mpr
  intro blank
  -- The longer one is a string, so the other is one as well, and has the same second quote.
  obtain ⟨body, inside, spelled, -⟩ := longer.of_isBlank (List.mem_append_right text mem) blank
  cases text with
  | nil => exact IsLexeme.ne_nil is
  | cons d text =>
    obtain ⟨rfl, tail⟩ := List.cons.inj spelled
    obtain ⟨body', inside', rfl, -⟩ := is.of_quote
    have whole : body' ++ '"' :: more = body ++ ['"'] := by simpa using tail
    have front : (body ++ ['"']).takeWhile (· != '"') = body := (span_until inside (.inr rfl)).1
    have front' : (body' ++ '"' :: more).takeWhile (· != '"') = body' :=
      (span_until inside' (.inr rfl)).1
    rw [whole, front] at front'
    subst front'
    have nothing : more = [] := (List.cons.inj (List.append_cancel_left whole)).2
    rw [nothing] at mem
    cases mem

/-- A piece that is not in error stands in front of a blanked source as in front of the source. -/
theorem Stands.blanked {p : Piece} {rest rest' : List Char} (stands : Stands p rest)
    (sound : p.isFault = false) (blanks : Blanks rest rest') : Stands p rest' := by
  cases stands with
  | blank is => exact .blank is
  | comment inLine ends => exact .comment inLine (blanks.ends ends)
  | @lexeme kind text _ is notComment longest =>
    refine .lexeme is ?_ ?_
    · intro comment
      have clear : ∀ c ∈ ['/', '/'], isBlank c = false := by simp [isBlank]
      exact notComment ((Blanks.append (.refl text) blanks).begins clear comment)
    · intro kind' text' is' front'
      by_contra longer
      obtain ⟨more, rfl⟩ : text <+: text' :=
        List.prefix_of_prefix_length_le (List.prefix_append text rest') front' (by omega)
      have read : more <+: rest' := (List.prefix_append_right_inj text).mp front'
      have read' : more <+: rest := blanks.begins (is.not_isBlank_of_append is') read
      exact longer (longest kind' _ is' ((List.prefix_append_right_inj text).mpr read'))
  | stray => cases sound
  | unclosed => cases sound

theorem Segments.blanks {pieces : List Piece} {source : List Char} (cut : Segments pieces source)
    (text : List Char) :
    Segments ((text.map fun c => .blank (blankOut c)) ++ pieces) (text.map blankOut ++ source) := by
  induction text with
  | nil => exact cut
  | cons c text ih => exact .cons (.blank (isBlank_blankOut c)) ih

/-- A source that is blanked out where it is in error is cut where the source is. -/
theorem Segments.mended {pieces : List Piece} {source : List Char} (cut : Segments pieces source) :
    Segments (pieces.flatMap Piece.mended) (pieces.flatMap Piece.blanked) := by
  induction cut with
  | nil => exact .nil
  | @cons p pieces rest stands later ih =>
    rw [List.flatMap_cons, List.flatMap_cons, Piece.mended, Piece.blanked]
    cases sound : p.isFault with
    | true => exact ih.blanks p.text
    | false =>
      have blanks := blanks_flatMap pieces
      rw [later.flatMap_text] at blanks
      exact .cons (stands.blanked sound blanks) ih

/-! ## Items stay what they were -/

theorem items_blanks (line : Nat) (text : List Char) (pieces : List Piece) :
    items line ((text.map fun c => .blank (blankOut c)) ++ pieces) =
      items (line + text.count '\n') pieces := by
  have silent (text : List Char) (line : Nat) :
      stamped line (text.map fun c => .blank (blankOut c)) = [] := by
    induction text generalizing line with
    | nil => rfl
    | cons c text ih => exact ih _
  have spelled : (text.map fun c => Piece.blank (blankOut c)).flatMap Piece.text =
      text.map blankOut := by
    rw [List.flatMap_map]
    exact List.map_eq_flatMap.symm
  rw [items_append, silent, List.nil_append, lineBreaks, spelled, count_newline_map_blankOut]

/-- Blanked out, pieces give their tokens and nothing else. -/
theorem items_mended (line : Nat) (pieces : List Piece) :
    items line (pieces.flatMap Piece.mended) = (tokens (items line pieces)).map .ok := by
  induction pieces generalizing line with
  | nil => rfl
  | cons p rest ih =>
    rw [List.flatMap_cons, Piece.mended, items, tokens_append, List.map_append, ← ih]
    cases sound : p.isFault with
    | true =>
      have silent : tokens (p.item? (line + p.lineBreaks)).toList = [] := by
        cases p <;> first | rfl | cases sound
      rw [silent]
      exact items_blanks line p.text _
    | false =>
      have speaks : (p.item? (line + p.lineBreaks)).toList =
          (tokens (p.item? (line + p.lineBreaks)).toList).map .ok := by
        cases p <;> first | rfl | cases sound
      rw [← speaks]
      rfl

theorem scan_blanked_source (source : String) :
    scan (String.ofList ((split source.toList).flatMap Piece.blanked)) =
      (tokens (scan source)).map .ok := by
  have cut : Segments (split source.toList) source.toList := split_eq_iff.mp rfl
  rw [scan, String.toList_ofList, split_eq_iff.mpr cut.mended, items_mended, scan]

/-- A quote that nothing closes is reported once, and last. -/
theorem unterminated_last {source : String} {front back : List Item} {line : Nat}
    (cut : scan source = front ++
      .error (.lexical line LexicalFault.unterminatedString.message) :: back) :
    (∀ line', .error (.lexical line' LexicalFault.unterminatedString.message) ∉ front) ∧
      back = [.ok (.endOfFile line)] := by
  have segments : Segments (split source.toList) source.toList := split_eq_iff.mp rfl
  have unclosed {p : Piece} {line : Nat}
      (gives : Gives p (.error (.lexical line LexicalFault.unterminatedString.message))) :
      ∃ body, p = .unclosed body := by
    generalize same : LexicalFault.unterminatedString.message = message at gives
    cases gives with
    | stray => exact absurd same.symm (strayCharacter_message_ne _)
    | unclosed => exact ⟨_, rfl⟩
  have inner : back ≠ [] := by
    rintro rfl
    have own := (items_eq_stamped 1 (split source.toList)).symm.trans cut
    cases (List.append_inj' own rfl).2
  obtain ⟨before, p, after, pieces, rfl, found, rfl⟩ := exists_piece_of_items cut inner
  rw [pieces] at segments
  obtain ⟨body, rfl⟩ := unclosed (Piece.gives_of_item? found)
  obtain rfl := segments.eq_nil_of_unclosed
  constructor
  · intro line' mem
    obtain ⟨before', q, after', rfl, gives⟩ := exists_piece_of_mem_stamped mem
    obtain ⟨body', rfl⟩ := unclosed gives
    rw [List.append_assoc, List.cons_append] at segments
    exact absurd segments.eq_nil_of_unclosed (by simp)
  · cases found
    rfl

theorem errors_map_ok (ts : List Token) : errors (ts.map .ok) = [] := by
  rw [errors, List.filterMap_map]
  exact List.filterMap_eq_nil_iff.mpr fun _ _ => rfl

/-! ## Numerals -/

/-- What is reported in the place of a numeral that is refused. -/
def unconvertible (numeral : String) : String :=
  "Could not convert " ++ numeral ++ " into a number"

/-- An item of a scanner that leaves the conversion of numerals to a function of their text, which
may refuse one. -/
def Item.converted (convert : String → Option Float) : Item → Item
  | .ok ⟨.number _, lexeme, line⟩ =>
    match convert lexeme with
    | some value => .ok ⟨.number value, lexeme, line⟩
    | none => .error (.lexical line (unconvertible lexeme))
  | item => item

theorem Item.converted_number {convert : String → Option Float} {lexeme : String} {value : Float}
    (taken : convert lexeme = some value) (value' : Float) (line : Nat) :
    Item.converted convert (.ok ⟨.number value', lexeme, line⟩) =
      .ok ⟨.number value, lexeme, line⟩ := by
  simp only [Item.converted, taken]

/-- A conversion that refuses no digits, be they alone or with a dot and more digits behind them. -/
def TakesNumerals (convert : String → Option Float) : Prop :=
  ∀ whole fraction : List Char, whole ≠ [] → (∀ d ∈ whole, d.isDigit = true) →
    (∀ d ∈ fraction, d.isDigit = true) →
    (convert (String.ofList (whole ++ pointed fraction))).isSome = true

/-- Every token of a source but the last is a lexeme, and the last is the end-of-file token. -/
theorem isLexeme_of_mem_tokens {source : String} {t : Token} (mem : t ∈ tokens (scan source)) :
    IsLexeme t.kind t.lexeme.toList ∨ t = .endOfFile (lineCount source) := by
  rw [tokens_scan, lineBreaks_split] at mem
  rcases List.mem_append.mp mem with inside | last
  · have cut : Segments (split source.toList) source.toList := split_eq_iff.mp rfl
    exact .inl (cut.isLexeme_of_mem t inside)
  · exact .inr (List.mem_singleton.mp last)

/-- A number of a source is written with digits, and denotes what they do. -/
theorem exists_numeral_of_mem {source lexeme : String} {value : Float} {line : Nat}
    (mem : .ok ⟨.number value, lexeme, line⟩ ∈ scan source) :
    ∃ whole fraction : List Char, whole ≠ [] ∧ (∀ d ∈ whole, d.isDigit = true) ∧
      (∀ d ∈ fraction, d.isDigit = true) ∧ lexeme = String.ofList (whole ++ pointed fraction) ∧
      value = Number.ofDigits whole fraction := by
  have read : ⟨.number value, lexeme, line⟩ ∈ tokens (scan source) :=
    List.mem_filterMap.mpr ⟨_, mem, rfl⟩
  rcases isLexeme_of_mem_tokens read with is | last
  · generalize spelled : lexeme.toList = text at is
    cases is with
    | @number whole fraction nonempty digits decimals =>
      refine ⟨whole, fraction, nonempty, digits, decimals, ?_, rfl⟩
      rw [← spelled, String.ofList_toList]
  · cases last

/-- A conversion that takes numerals adds no error. -/
theorem errors_converted {convert : String → Option Float} (takes : TakesNumerals convert)
    (source : String) :
    errors ((scan source).map (Item.converted convert)) = errors (scan source) := by
  rw [errors, List.filterMap_map]
  refine List.filterMap_congr ?_
  rintro (d | ⟨kind, lexeme, line⟩) mem
  · rfl
  · cases kind with
    | number value =>
      obtain ⟨whole, fraction, nonempty, digits, decimals, rfl, -⟩ := exists_numeral_of_mem mem
      obtain ⟨value', taken⟩ :=
        Option.isSome_iff_exists.mp (takes whole fraction nonempty digits decimals)
      rw [Function.comp_apply, Item.converted_number taken]
    | _ => rfl

/-- The number that a text denotes, if the text is a numeral. -/
def numeral? (text : String) : Option Float :=
  let whole := text.toList.takeWhile Char.isDigit
  let fraction := (text.toList.dropWhile Char.isDigit).drop 1
  if whole ≠ [] ∧ fraction.all Char.isDigit ∧ text.toList = whole ++ pointed fraction then
    some (Number.ofDigits whole fraction)
  else none

theorem numeral?_eq {whole fraction : List Char} (nonempty : whole ≠ [])
    (digits : ∀ d ∈ whole, d.isDigit = true) (decimals : ∀ d ∈ fraction, d.isDigit = true) :
    numeral? (String.ofList (whole ++ pointed fraction)) =
      some (Number.ofDigits whole fraction) := by
  have stop : ∀ d, (pointed fraction).head? = some d → d.isDigit = false := by
    intro d head
    cases fraction with
    | nil => cases head
    | cons =>
      cases head
      decide
  obtain ⟨front, back⟩ := span_run digits stop
  have behind : (pointed fraction).drop 1 = fraction := by
    cases fraction <;> rfl
  rw [numeral?, String.toList_ofList, front, back, behind]
  exact if_pos ⟨nonempty, List.all_eq_true.mpr decimals, rfl⟩

theorem takesNumerals_numeral? : TakesNumerals numeral? := by
  intro whole fraction nonempty digits decimals
  rw [numeral?_eq nonempty digits decimals]
  rfl

/-- The scanner converts numerals by `numeral?`. -/
theorem scan_converted (source : String) :
    (scan source).map (Item.converted numeral?) = scan source := by
  refine (List.map_congr_left ?_).trans (List.map_id _)
  rintro (d | ⟨kind, lexeme, line⟩) mem
  · rfl
  · cases kind with
    | number value =>
      obtain ⟨whole, fraction, nonempty, digits, decimals, rfl, rfl⟩ := exists_numeral_of_mem mem
      exact Item.converted_number (numeral?_eq nonempty digits decimals) _ line
    | _ => rfl

/-! ## Errors lose only their own text -/

/-- Lexical errors **lose only their own text**. The pieces of a source that are in error give one
error each; blanked out, they leave a source that scans without an error, and to the tokens of the
source with their kinds, lexemes and lines. Every error is about a stray character or about a string
that nothing closes, and of the latter there is at most one, the last item but for the end-of-file
token. No numeral is refused, if they are left to a conversion that takes digits, alone or with a
dot and more digits behind. -/
theorem scan_blanked (source : String) :
    (∃ pieces, Segments pieces source.toList ∧
      List.Forall₂ Gives (pieces.filter Piece.isFault) ((errors (scan source)).map .error) ∧
      let cleared := String.ofList (pieces.flatMap Piece.blanked)
      errors (scan cleared) = [] ∧ scan cleared = (tokens (scan source)).map .ok) ∧
    (∀ d ∈ errors (scan source), ∃ line,
      (∃ c, d = .lexical line (LexicalFault.strayCharacter c).message) ∨
        d = .lexical line LexicalFault.unterminatedString.message) ∧
    (∀ front line back, scan source = front ++
        .error (.lexical line LexicalFault.unterminatedString.message) :: back →
      (∀ line', .error (.lexical line' LexicalFault.unterminatedString.message) ∉ front) ∧
        back = [.ok (.endOfFile line)]) ∧
    ∀ convert, TakesNumerals convert →
      errors ((scan source).map (Item.converted convert)) = errors (scan source) := by
  have cut : Segments (split source.toList) source.toList := split_eq_iff.mp rfl
  refine ⟨⟨_, cut, ?_, ?_⟩, ?_, fun _ _ _ => unterminated_last, fun _ takes => ?_⟩
  · rw [errors_scan]
    exact errors_gives 1 _
  · intro cleared
    have same : scan cleared = _ := scan_blanked_source source
    rw [same]
    exact ⟨errors_map_ok _, rfl⟩
  · intro d mem
    obtain ⟨line, fault, rfl, -⟩ := exists_of_mem_errors mem
    cases fault with
    | strayCharacter c => exact ⟨line, .inl ⟨c, rfl⟩⟩
    | unterminatedString => exact ⟨line, .inr rfl⟩
  · exact errors_converted takes source

/-- A stray character between two marks that would be one without it, and a string over two lines
that nothing closes. -/
theorem scan_blanked_marks :
    let source := "!@= 1.\"a\nb"
    scan "! = 1.  \n " = (tokens (scan source)).map .ok ∧
      errors ((scan source).map (Item.converted numeral?)) =
        [.lexical 1 (LexicalFault.strayCharacter '@').message,
          .lexical 2 LexicalFault.unterminatedString.message] := by
  intro source
  obtain ⟨⟨pieces, cut, -, -, same⟩, -, -, converted⟩ := scan_blanked source
  have cleared : String.ofList (pieces.flatMap Piece.blanked) = "! = 1.  \n " := by
    rw [← split_eq_iff.mpr cut]
    decide +kernel
  rw [cleared] at same
  refine ⟨same, (converted numeral? takesNumerals_numeral?).trans ?_⟩
  decide +kernel

end LoxLang.Source
