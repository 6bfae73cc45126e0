import LoxLang.Proofs.Source.Joining
import LoxLang.Proofs.Source.Lexeme
import Mathlib.Data.List.Forall2

/-!
# Segmentation

How a source is cut, said by the lexical grammar alone. A piece **stands** in front of the rest of
its source (`Stands`) as a blank, as a comment that reaches to the end of its line, as the longest
lexeme that can be read there, as a character that begins no lexeme, or as a quote that nothing
closes. A source has exactly one cut into pieces that stand in their places, and `split` finds it
(`split_eq_iff`).

The items of a source are those of the pieces that are no blanks and no comments, one for each and
in their order (`scan_segments`). What an item says about its line is not the matter here.
-/

namespace LoxLang.Source

/-! ## Pieces in their places -/

/-- A piece in front of the rest of its source. -/
inductive Stands : Piece → List Char → Prop where
  | blank {c : Char} {rest : List Char} (is : isBlank c = true) : Stands (.blank c) rest
  | comment {body rest : List Char} (inLine : '\n' ∉ body)
      (ends : rest = [] ∨ rest.head? = some '\n') : Stands (.comment body) rest
  /-- The longest lexeme that the source at this point begins with. -/
  | lexeme {kind : TokenKind} {text rest : List Char} (is : IsLexeme kind text)
      (notComment : ¬ ['/', '/'] <+: text ++ rest)
      (longest : ∀ kind' text', IsLexeme kind' text' → text' <+: text ++ rest →
        text'.length ≤ text.length) : Stands (.lexeme kind text) rest
  | stray {c : Char} {rest : List Char} (notBlank : isBlank c = false)
      (beginsNone : ∀ kind text, ¬ IsLexeme kind (c :: text)) : Stands (.stray c) rest
  | unclosed {body : List Char} (inside : '"' ∉ body) : Stands (.unclosed body) []

theorem Stands.text_ne_nil {p : Piece} {rest : List Char} (stands : Stands p rest) :
    p.text ≠ [] := by
  cases stands with
  | lexeme is =>
    rintro rfl
    exact IsLexeme.ne_nil is
  | _ => exact List.cons_ne_nil _ _

/-- Pieces that make up a source, each in its place. -/
inductive Segments : List Piece → List Char → Prop where
  | nil : Segments [] []
  | cons {p : Piece} {pieces : List Piece} {rest : List Char} (stands : Stands p rest)
      (later : Segments pieces rest) : Segments (p :: pieces) (p.text ++ rest)

/-! ## Runs of characters -/

/-- A run of characters of a class up to one outside of it, or to the end, is what is taken. -/
theorem span_run {p : Char → Bool} {run rest : List Char} (all : ∀ d ∈ run, p d = true)
    (stop : ∀ d, rest.head? = some d → p d = false) :
    (run ++ rest).takeWhile p = run ∧ (run ++ rest).dropWhile p = rest := by
  rw [List.takeWhile_append_of_pos all, List.dropWhile_append_of_pos all]
  cases rest with
  | nil => simp
  | cons d rest => simp [stop d rfl]

/-- Characters of a class are no more than the longest run of them. -/
theorem length_le_takeWhile {p : Char → Bool} {run source : List Char}
    (all : ∀ d ∈ run, p d = true) (front : run <+: source) :
    run.length ≤ (source.takeWhile p).length := by
  obtain ⟨rest, rfl⟩ := front
  rw [List.takeWhile_append_of_pos all, List.length_append]
  exact Nat.le_add_right _ _

/-- The first character of a run and those that go on with it. -/
theorem all_cons_takeWhile {p : Char → Bool} {c : Char} (first : p c = true) (source : List Char) :
    ∀ d ∈ c :: source.takeWhile p, p d = true := by
  intro d mem
  rcases List.mem_cons.mp mem with rfl | later
  · exact first
  · exact List.mem_takeWhile_imp later

theorem not_mem_takeWhile_ne (x : Char) (source : List Char) : x ∉ source.takeWhile (· != x) := by
  intro mem
  simpa using List.mem_takeWhile_imp mem

/-- A text up to the first occurrence of a character, or to the end. -/
theorem span_until {x : Char} {body rest : List Char} (inside : x ∉ body)
    (ends : rest = [] ∨ rest.head? = some x) :
    (body ++ rest).takeWhile (· != x) = body ∧ (body ++ rest).dropWhile (· != x) = rest := by
  refine span_run ?_ ?_
  · intro d mem
    exact bne_iff_ne.mpr fun same => inside (same ▸ mem)
  · intro d head
    rcases ends with rfl | found
    · cases head
    · cases head.symm.trans found
      exact bne_self_eq_false x

/-- What is left from the first occurrence of a character on is nothing or begins with it. -/
theorem dropWhile_ne_cases (x : Char) (source : List Char) :
    source.dropWhile (· != x) = [] ∨ (source.dropWhile (· != x)).head? = some x := by
  have head := List.head?_dropWhile_not (· != x) source
  cases found : source.dropWhile (· != x) with
  | nil => exact .inl rfl
  | cons d tail =>
    right
    simpa [found] using head

/-! ## The first piece stands in its place -/

/-- A lexeme is compared with those that begin with the same character. -/
theorem stands_lexeme {c : Char} {rest text after : List Char} {kind : TokenKind}
    (whole : text ++ after = c :: rest) (is : IsLexeme kind text)
    (notComment : c = '/' → rest.head? ≠ some '/')
    (longest : ∀ kind' text', IsLexeme kind' (c :: text') → text' <+: rest →
      text'.length < text.length) :
    Stands (.lexeme kind text) after := by
  refine .lexeme is ?_ ?_
  · rw [whole, List.cons_prefix_cons]
    rintro ⟨slash, next⟩
    obtain ⟨tail, rfl⟩ := next
    exact notComment slash.symm rfl
  · intro kind' text' is' front
    cases text' with
    | nil => exact Nat.zero_le _
    | cons d text' =>
      rw [whole, List.cons_prefix_cons] at front
      obtain ⟨rfl, front⟩ := front
      exact longest kind' text' is' front

theorem splitString_stands (rest : List Char) :
    Stands (splitString rest).1 (splitString rest).2 := by
  have inside := not_mem_takeWhile_ne '"' rest
  have text := splitString_text rest
  cases found : rest.dropWhile (· != '"') with
  | nil =>
    simp only [splitString, found]
    exact .unclosed inside
  | cons close after =>
    obtain rfl : close = '"' := by
      simpa [found] using dropWhile_ne_cases '"' rest
    simp only [splitString, found, Piece.text] at text ⊢
    apply stands_lexeme text (.string inside)
    · intro slash
      exact absurd slash (by decide)
    · intro kind' text' is' front
      -- Both strings end at the first quote.
      obtain ⟨body, inside', rfl, -⟩ := is'.of_quote
      obtain ⟨tail, rfl⟩ := front
      have same : (body ++ '"' :: tail).takeWhile (· != '"') = body :=
        (span_until inside' (.inr rfl)).1
      simp [same]

theorem splitFraction?_eq_some {rest fraction after : List Char}
    (found : splitFraction? rest = some (fraction, after)) :
    ∃ d tail, rest = '.' :: d :: tail ∧ d.isDigit = true ∧
      fraction = d :: tail.takeWhile Char.isDigit ∧ after = tail.dropWhile Char.isDigit := by
  unfold splitFraction? at found
  split at found
  · rename_i d tail
    split at found
    · rename_i digit
      cases found
      exact ⟨d, tail, rfl, digit, rfl, rfl⟩
    · cases found
  · cases found

theorem splitFraction?_point {d : Char} (digit : d.isDigit = true) (tail : List Char) :
    splitFraction? ('.' :: d :: tail) =
      some (d :: tail.takeWhile Char.isDigit, tail.dropWhile Char.isDigit) := by
  simp [splitFraction?, digit]

/-- A numeral with a fraction is read up to its dot, and then the fraction. -/
theorem splitFraction?_numeral {whole fraction : List Char} {d : Char} (tail : List Char)
    (digits : ∀ d ∈ whole, d.isDigit = true) (decimals : ∀ x ∈ d :: fraction, x.isDigit = true) :
    let source := whole ++ pointed (d :: fraction) ++ tail
    source.takeWhile Char.isDigit = whole ∧
      ∃ after, splitFraction? (source.dropWhile Char.isDigit) =
        some (d :: (fraction ++ tail).takeWhile Char.isDigit, after) := by
  intro source
  have cut : source = whole ++ '.' :: d :: (fraction ++ tail) := by
    simp [source, pointed]
  have run : source.takeWhile Char.isDigit = whole ∧
      source.dropWhile Char.isDigit = '.' :: d :: (fraction ++ tail) := by
    rw [cut]
    refine span_run digits ?_
    simp
  refine ⟨run.1, (fraction ++ tail).dropWhile Char.isDigit, ?_⟩
  rw [run.2, splitFraction?_point (decimals d List.mem_cons_self)]

theorem splitNumber_stands {c : Char} (digit : c.isDigit = true) (rest : List Char) :
    Stands (splitNumber c rest).1 (splitNumber c rest).2 := by
  have text := splitNumber_text c rest
  have digits := all_cons_takeWhile digit rest
  have notComment : c = '/' → rest.head? ≠ some '/' := by
    rintro rfl
    exact absurd digit (by decide)
  cases found : splitFraction? (rest.dropWhile Char.isDigit) with
  | none =>
    simp only [splitNumber, found, Piece.text] at text ⊢
    have is : IsLexeme _ ((c :: rest.takeWhile Char.isDigit) ++ pointed []) :=
      .number (List.cons_ne_nil _ _) digits (by simp)
    rw [pointed, List.append_nil] at is
    apply stands_lexeme text is notComment
    intro kind' text' is' front
    obtain ⟨whole, fraction, digits', decimals, rfl, -⟩ := is'.of_digit digit
    cases fraction with
    | nil =>
      rw [pointed, List.append_nil] at front ⊢
      exact Nat.succ_le_succ (length_le_takeWhile digits' front)
    | cons d fraction =>
      obtain ⟨tail, rfl⟩ := front
      obtain ⟨-, after, found'⟩ := splitFraction?_numeral tail digits' decimals
      cases found.symm.trans found'
  | some cut =>
    obtain ⟨fraction, after⟩ := cut
    simp only [splitNumber, found, Piece.text] at text ⊢
    obtain ⟨d, tail, point, digit', rfl, rfl⟩ := splitFraction?_eq_some found
    have decimals := all_cons_takeWhile digit' tail
    apply stands_lexeme text (.number (List.cons_ne_nil _ _) digits decimals) notComment
    intro kind' text' is' front
    obtain ⟨whole, fraction, digits', decimals', rfl, -⟩ := is'.of_digit digit
    cases fraction with
    | nil =>
      rw [pointed, List.append_nil] at front ⊢
      have shorter := length_le_takeWhile digits' front
      simp only [List.length_append, List.length_cons]
      omega
    | cons e fraction =>
      obtain ⟨rest', rfl⟩ := front
      obtain ⟨same, after', found'⟩ := splitFraction?_numeral rest' digits' decimals'
      obtain ⟨longer, -⟩ := Prod.mk.inj (Option.some.inj (found.symm.trans found'))
      have shorter : fraction.length ≤ ((fraction ++ rest').takeWhile Char.isDigit).length :=
        length_le_takeWhile (fun x mem => decimals' x (List.mem_cons_of_mem _ mem))
          (List.prefix_append _ _)
      rw [same, longer]
      simp only [pointed, List.length_append, List.length_cons]
      omega

theorem splitWord_stands {c : Char} (letter : isWordStart c = true) (rest : List Char) :
    Stands (splitWord c rest).1 (splitWord c rest).2 := by
  apply stands_lexeme (splitWord_text c rest)
    (isLexeme_word letter fun _ => List.mem_takeWhile_imp)
  · rintro rfl
    exact absurd letter (by decide)
  · intro kind' text' is' front
    exact Nat.succ_le_succ (length_le_takeWhile (is'.of_letter letter).1 front)

theorem splitMark_stands {c : Char} {m : Mark} (mark : Mark.ofChar? c = some m) {rest : List Char}
    (single : m = .slash → rest.head? ≠ some '/') :
    Stands (splitMark c m rest).1 (splitMark c m rest).2 := by
  have text := splitMark_text c m rest
  have notComment : c = '/' → rest.head? ≠ some '/' := by
    rintro rfl
    exact single (Option.some.inj mark).symm
  unfold splitMark at text ⊢
  split at text <;> simp only [Piece.text] at text
  · rename_i longer after grows
    have is := IsLexeme.mark longer
    rw [Mark.spelling_of_withEqual? mark grows] at is
    apply stands_lexeme text is notComment
    intro kind' text' is' front
    rcases is'.of_mark mark with ⟨rfl, -⟩ | ⟨_, -, rfl, -⟩ <;> simp
  · rename_i ends
    have is := IsLexeme.mark m
    rw [Mark.spelling_of_ofChar? mark] at is
    apply stands_lexeme text is notComment
    intro kind' text' is' front
    rcases is'.of_mark mark with ⟨rfl, -⟩ | ⟨longer, grows, rfl, -⟩
    · simp
    · obtain ⟨after, rfl⟩ := front
      exact (ends longer after grows rfl).elim

/-- The first piece of a source stands in front of what follows it. -/
theorem splitFirst_stands (c : Char) (rest : List Char) :
    Stands (splitFirst c rest).1 (splitFirst c rest).2 := by
  cases lead c with
  | blank is =>
    rw [splitFirst_blank is]
    exact .blank is
  | quote is =>
    rw [is, splitFirst_quote]
    exact splitString_stands rest
  | digit is =>
    rw [splitFirst_digit is]
    exact splitNumber_stands is rest
  | letter is =>
    rw [splitFirst_letter is]
    exact splitWord_stands is rest
  | mark m is =>
    by_cases comment : m = .slash ∧ rest.head? = some '/'
    · obtain ⟨rfl, slash⟩ := comment
      obtain ⟨body, rfl⟩ := List.head?_eq_some_iff.mp slash
      rw [eq_slash_of_ofChar? is, splitFirst_comment, splitComment]
      exact .comment (not_mem_takeWhile_ne '\n' body) (dropWhile_ne_cases '\n' body)
    · have single : m = .slash → rest.head? ≠ some '/' := fun h h' => comment ⟨h, h'⟩
      rw [splitFirst_mark is single]
      exact splitMark_stands is single
  | nothing notBlank notQuote notDigit notLetter notMark =>
    rw [splitFirst_stray notBlank notQuote notDigit notLetter notMark]
    refine .stray notBlank ?_
    intro kind text is
    exact is.not_nothing notQuote notDigit notLetter notMark

/-! ## No other piece does -/

/-- A character that leads anything but a blank begins a lexeme. -/
theorem nothing_of_beginsNone {c : Char} (notBlank : isBlank c = false)
    (beginsNone : ∀ kind text, ¬ IsLexeme kind (c :: text)) (rest : List Char) :
    splitFirst c rest = (.stray c, rest) := by
  cases lead c with
  | blank is => exact absurd is (Bool.eq_false_iff.mp notBlank)
  | quote is =>
    subst is
    exact absurd (.string List.not_mem_nil) (beginsNone _ _)
  | digit is =>
    have digits : ∀ d ∈ [c], d.isDigit = true := by simpa using is
    exact absurd (.number (List.cons_ne_nil _ _) digits (by simp)) (beginsNone _ (pointed []))
  | letter is => exact absurd (isLexeme_word is (by simp)) (beginsNone _ [])
  | mark m is =>
    have lexeme := IsLexeme.mark m
    rw [Mark.spelling_of_ofChar? is] at lexeme
    exact absurd lexeme (beginsNone _ _)
  | nothing _ notQuote notDigit notLetter notMark =>
    exact splitFirst_stray notBlank notQuote notDigit notLetter notMark rest

/-- A lexeme that stands in front of the rest of a source is its first piece. -/
theorem splitFirst_of_lexeme {kind : TokenKind} {text after rest : List Char} {c : Char}
    (stands : Stands (.lexeme kind text) after) (whole : text ++ after = c :: rest) :
    splitFirst c rest = (.lexeme kind text, after) := by
  obtain ⟨is, notComment, longest⟩ : IsLexeme kind text ∧ ¬ ['/', '/'] <+: text ++ after ∧
      ∀ kind' text', IsLexeme kind' text' → text' <+: text ++ after →
        text'.length ≤ text.length := by
    cases stands with
    | lexeme is notComment longest => exact ⟨is, notComment, longest⟩
  rw [whole] at notComment longest
  obtain ⟨body, rfl⟩ : ∃ body, text = c :: body := by
    cases text with
    | nil => exact absurd is IsLexeme.ne_nil
    | cons d body => exact ⟨body, by rw [(List.cons.inj whole).1]⟩
  have stands' := splitFirst_stands c rest
  have whole' := splitFirst_text c rest
  generalize splitFirst c rest = first at stands' whole'
  obtain ⟨p, after'⟩ := first
  simp only at stands' whole'
  cases stands' with
  | blank isBlank =>
    obtain ⟨rfl, -⟩ := List.cons.inj whole'
    exact absurd isBlank (Bool.eq_false_iff.mp is.not_isBlank)
  | @comment body' _ =>
    exact absurd ⟨body' ++ after', whole'⟩ notComment
  | @lexeme kind' text' _ is' _ longest' =>
    -- Each is at least as long as the other, and a text has one kind.
    have front : text' <+: c :: rest := ⟨after', whole'⟩
    rw [show text' ++ after' = c :: rest from whole'] at longest'
    have lengths : text'.length = (c :: body).length :=
      Nat.le_antisymm (longest kind' text' is' front) (longest' kind _ is ⟨after, whole⟩)
    obtain ⟨rfl, rfl⟩ := List.append_inj (whole'.trans whole.symm) lengths
    rw [is.kind_unique is']
  | stray _ beginsNone =>
    obtain ⟨rfl, -⟩ := List.cons.inj whole'
    exact absurd is (beginsNone kind body)
  | unclosed inside =>
    -- A string in front of the source would have its second quote in it.
    obtain ⟨rfl, same⟩ := List.cons.inj whole'
    obtain ⟨contents, -, rfl, -⟩ := is.of_quote
    replace same : _ = rest := (List.append_nil _).symm.trans same
    refine absurd ?_ inside
    rw [same, ← (List.cons.inj whole).2]
    simp

/-- A piece that stands in front of the rest of a source is its first piece. -/
theorem splitFirst_of_stands {p : Piece} {after rest : List Char} {c : Char}
    (stands : Stands p after) (whole : p.text ++ after = c :: rest) :
    splitFirst c rest = (p, after) := by
  cases stands with
  | blank is =>
    cases whole
    exact splitFirst_blank is after
  | @comment body _ inLine ends =>
    cases whole
    have run := span_until inLine ends
    show splitFirst '/' ('/' :: (body ++ after)) = _
    rw [splitFirst_comment, splitComment, run.1, run.2]
  | lexeme is notComment longest => exact splitFirst_of_lexeme (.lexeme is notComment longest) whole
  | stray notBlank beginsNone =>
    cases whole
    exact nothing_of_beginsNone notBlank beginsNone after
  | @unclosed body inside =>
    cases whole
    have run := span_until inside (.inl rfl)
    show splitFirst '"' (body ++ []) = _
    simp only [splitFirst_quote, splitString, run.1, run.2]

/-! ## All pieces -/

/-- The pieces that `split` gives are the one cut of a source in which each stands in its place. -/
theorem split_eq_iff {source : List Char} {pieces : List Piece} :
    split source = pieces ↔ Segments pieces source := by
  constructor
  · rintro rfl
    fun_induction split source with
    | case1 => exact .nil
    | case2 c rest ih =>
      have cut := Segments.cons (splitFirst_stands c rest) ih
      rwa [splitFirst_text] at cut
  · intro cut
    induction cut with
    | nil => exact split_nil
    | @cons p pieces rest stands later ih =>
      obtain ⟨c, source, whole⟩ : ∃ c source, p.text ++ rest = c :: source :=
        List.exists_cons_of_ne_nil (List.append_ne_nil_of_left_ne_nil stands.text_ne_nil rest)
      rw [whole, split_cons, splitFirst_of_stands stands whole, ih]

theorem Segments.text_ne_nil {pieces : List Piece} {source : List Char}
    (cut : Segments pieces source) : ∀ p ∈ pieces, p.text ≠ [] := by
  induction cut with
  | nil => simp
  | cons stands later ih => exact List.forall_mem_cons.mpr ⟨stands.text_ne_nil, ih⟩

theorem Segments.flatMap_text {pieces : List Piece} {source : List Char}
    (cut : Segments pieces source) : pieces.flatMap Piece.text = source := by
  induction cut with
  | nil => rfl
  | cons stands later ih => rw [List.flatMap_cons, ih]

/-- A piece stands in front of the pieces behind it. -/
theorem Segments.stands_of_append {before after : List Piece} {p : Piece} {source : List Char}
    (cut : Segments (before ++ p :: after) source) : Stands p (after.flatMap Piece.text) := by
  induction before generalizing source with
  | nil =>
    cases cut with
    | cons stands later =>
      rw [later.flatMap_text]
      exact stands
  | cons q before ih =>
    cases cut with
    | cons stands later => exact ih later

/-- Nothing is behind a string that nothing closes. -/
theorem Segments.eq_nil_of_unclosed {before after : List Piece} {body source : List Char}
    (cut : Segments (before ++ .unclosed body :: after) source) : after = [] := by
  have stands := cut.stands_of_append
  generalize rest : after.flatMap Piece.text = text at stands
  cases stands
  cases after with
  | nil => rfl
  | cons q after =>
    have nonempty := cut.text_ne_nil q (by simp)
    rw [List.flatMap_cons, List.append_eq_nil_iff] at rest
    exact absurd rest.1 nonempty

/-! ## Items -/

/-- Whether a piece has an item: blanks and comments have none. -/
def Piece.speaks : Piece → Bool
  | .blank _ | .comment _ => false
  | .lexeme .. | .stray _ | .unclosed _ => true

/-- What the item of a piece says, on whatever line. -/
inductive Gives : Piece → Item → Prop where
  | token {kind : TokenKind} {text : List Char} {line : Nat} :
      Gives (.lexeme kind text) (.ok ⟨kind, String.ofList text, line⟩)
  | stray {c : Char} {line : Nat} :
      Gives (.stray c) (.error (.lexical line (LexicalFault.strayCharacter c).message))
  | unclosed {body : List Char} {line : Nat} :
      Gives (.unclosed body) (.error (.lexical line LexicalFault.unterminatedString.message))

/-- One item for each piece that has one. -/
theorem stamped_gives (line : Nat) (pieces : List Piece) :
    List.Forall₂ Gives (pieces.filter Piece.speaks) (stamped line pieces) := by
  induction pieces generalizing line with
  | nil => exact .nil
  | cons p rest ih =>
    cases p with
    | blank c => exact ih _
    | comment body => exact ih _
    | lexeme kind text => exact .cons .token (ih _)
    | stray c => exact .cons .stray (ih _)
    | unclosed body => exact .cons .unclosed (ih _)

theorem Piece.gives_of_item? {p : Piece} {line : Nat} {item : Item}
    (found : p.item? line = some item) : Gives p item := by
  cases p with
  | blank c => cases found
  | comment body => cases found
  | lexeme kind text =>
    cases found
    exact .token
  | stray c =>
    cases found
    exact .stray
  | unclosed body =>
    cases found
    exact .unclosed

/-- Every item but the last **comes from** one piece, the items in front of it from the pieces in
front, and the items behind it from the pieces behind. -/
theorem exists_piece_of_items {line : Nat} {pieces : List Piece} {front back : List Item}
    {item : Item} (cut : items line pieces = front ++ item :: back) (inner : back ≠ []) :
    ∃ before p after, pieces = before ++ p :: after ∧ stamped line before = front ∧
      p.item? (line + lineBreaks (before ++ [p])) = some item ∧
      items (line + lineBreaks (before ++ [p])) after = back := by
  induction pieces generalizing line front with
  | nil =>
    have length := congrArg List.length cut
    have more := List.length_pos_iff.mpr inner
    simp only [items, List.length_append, List.length_cons, List.length_nil] at length
    omega
  | cons p rest ih =>
    have behind (later : List Piece) :
        line + p.lineBreaks + lineBreaks later = line + lineBreaks (p :: later) := by
      rw [lineBreaks_cons, Nat.add_assoc]
    have later {front : List Item}
        (cut : items (line + p.lineBreaks) rest = front ++ item :: back) :
        ∃ before q after, p :: rest = before ++ q :: after ∧
          stamped line before = (p.item? (line + p.lineBreaks)).toList ++ front ∧
          q.item? (line + lineBreaks (before ++ [q])) = some item ∧
          items (line + lineBreaks (before ++ [q])) after = back := by
      obtain ⟨before, q, after, rfl, same, found, last⟩ := ih cut
      rw [behind] at found last
      exact ⟨p :: before, q, after, rfl, by rw [stamped, same], found, last⟩
    rw [items] at cut
    cases found : p.item? (line + p.lineBreaks) with
    | none =>
      rw [found] at cut later
      exact later cut
    | some first =>
      rw [found] at cut later
      cases front with
      | nil =>
        obtain ⟨rfl, rfl⟩ := List.cons.inj cut
        have alone : line + p.lineBreaks = line + lineBreaks [p] := behind []
        exact ⟨[], p, rest, rfl, rfl, alone ▸ found, alone ▸ rfl⟩
      | cons head front =>
        obtain ⟨rfl, others⟩ := List.cons.inj cut
        exact later others

/-- The piece that an item comes from. -/
theorem exists_piece_of_mem_stamped {line : Nat} {pieces : List Piece} {item : Item}
    (mem : item ∈ stamped line pieces) :
    ∃ before p after, pieces = before ++ p :: after ∧ Gives p item := by
  obtain ⟨front, back, cut⟩ := List.append_of_mem mem
  have whole := items_eq_stamped line pieces
  rw [cut, List.append_assoc, List.cons_append] at whole
  obtain ⟨before, p, after, same, -, found, -⟩ := exists_piece_of_items whole (by simp)
  exact ⟨before, p, after, same, Piece.gives_of_item? found⟩

theorem Segments.isLexeme_of_mem {pieces : List Piece} {source : List Char} {line : Nat}
    (cut : Segments pieces source) :
    ∀ t ∈ tokens (stamped line pieces), IsLexeme t.kind t.lexeme.toList := by
  induction cut generalizing line with
  | nil => simp [stamped, tokens]
  | cons stands later ih =>
    intro t mem
    rw [stamped, tokens_append] at mem
    rcases List.mem_append.mp mem with now | later
    · cases stands with
      | lexeme is =>
        cases List.mem_singleton.mp now
        simpa using is
      | _ => cases now
    · exact ih t later

/-- A source is **cut without loss** into non-empty pieces, in exactly one way in which each stands
in its place. Its items are one for each lexeme and each error among the pieces, in their order, and
then an end-of-file token with an empty lexeme. A token is a keyword exactly if it is spelled like
one, and the contents of a string are its lexeme without the quotes. -/
theorem scan_segments (source : String) :
    ∃ pieces : List Piece,
      pieces.flatMap Piece.text = source.toList ∧ (∀ p ∈ pieces, p.text ≠ []) ∧
      Segments pieces source.toList ∧
      (∀ others, Segments others source.toList → others = pieces) ∧
      ∃ items line, scan source = items ++ [.ok ⟨.endOfFile, "", line⟩] ∧
        List.Forall₂ Gives (pieces.filter Piece.speaks) items ∧
        ∀ t ∈ tokens items, (∀ w, t.kind = .keyword w ↔ t.lexeme = w.spelling) ∧
          ∀ contents, t.kind = .string contents → t.lexeme = "\"" ++ contents ++ "\"" := by
  have cut : Segments (split source.toList) source.toList := split_eq_iff.mp rfl
  refine ⟨split source.toList, flatMap_text_split _, cut.text_ne_nil, cut, ?_, ?_⟩
  · intro others cut'
    exact (split_eq_iff.mpr cut').symm
  · refine ⟨_, _, items_eq_stamped 1 _, stamped_gives 1 _, ?_⟩
    intro t mem
    have is := cut.isLexeme_of_mem t mem
    constructor
    · intro w
      rw [is.eq_keyword_iff, String.toList_inj]
    · intro contents same
      rw [same] at is
      apply String.toList_inj.mp
      simpa using is.eq_of_string

end LoxLang.Source
