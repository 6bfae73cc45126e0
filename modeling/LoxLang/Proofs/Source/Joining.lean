import LoxLang.Source.Scan
import LoxLang.Proofs.Lines.Reading
import LoxLang.Proofs.Source.Lead
import Mathlib.Data.List.Basic

/-!
# Joining sources

Two sources with a blank between them are cut where the blank stands: the pieces of the whole are
the pieces of the first, the blank, and the pieces of the second (`split_append_blank`). What it
takes is that the blank closes every piece of the first source. It closes all lexemes; a comment is
closed by a line break only, and a string that nothing closes is closed by no blank.

A line stamp only counts the line breaks before it, so the items of the second source are its own
items moved down (`scan_append_newline`). So scanning is compositional at line breaks, also next to
errors: all it takes is that the first source has no string that nothing closes
(`scan_append_newline_of_closed`).
-/

namespace LoxLang.Source

/-! ## Blanks -/

/-- A blank goes on with nothing that a lexeme can be made of. -/
structure Stops (x : Char) : Prop where
  digit : x.isDigit = false
  word : isWordPart x = false
  equal : x ≠ '='
  slash : x ≠ '/'
  dot : x ≠ '.'

theorem stops_of_isBlank {x : Char} (blank : isBlank x = true) : Stops x := by
  rcases eq_of_isBlank blank with rfl | rfl | rfl | rfl <;>
    exact ⟨by decide, by decide, by decide, by decide, by decide⟩

/-- A piece that ends at a character wherever the character follows. -/
def Piece.ClosedBy (x : Char) : Piece → Prop
  | .comment _ => x = '\n'
  | .unclosed _ => False
  | _ => True

/-! ## The first piece -/

theorem takeWhile_append_of_stop {p : Char → Bool} {x : Char} (stop : p x = false)
    (rest after : List Char) : (rest ++ x :: after).takeWhile p = rest.takeWhile p := by
  induction rest with
  | nil => simp [stop]
  | cons c rest ih => cases h : p c <;> simp [h, ih]

theorem dropWhile_append_of_stop {p : Char → Bool} {x : Char} (stop : p x = false)
    (rest after : List Char) :
    (rest ++ x :: after).dropWhile p = rest.dropWhile p ++ x :: after := by
  induction rest with
  | nil => simp [stop]
  | cons c rest ih => cases h : p c <;> simp [h, ih]

section Append

variable {x : Char} (after : List Char)

/-- The first piece of a source and what follows it, with more source behind. -/
def extended (x : Char) (after : List Char) (first : Piece × List Char) : Piece × List Char :=
  (first.1, first.2 ++ x :: after)

theorem splitString_append (rest : List Char) (closed : (splitString rest).1.ClosedBy x) :
    splitString (rest ++ x :: after) = extended x after (splitString rest) := by
  have whole : rest.takeWhile (· != '"') ++ rest.dropWhile (· != '"') = rest :=
    List.takeWhile_append_dropWhile
  cases found : rest.dropWhile (· != '"') with
  | nil =>
    simp only [splitString, found] at closed
    exact closed.elim
  | cons close behind =>
    have drop : (rest ++ x :: after).dropWhile (· != '"') = close :: (behind ++ x :: after) := by
      rw [List.dropWhile_append, found]
      rfl
    have take : (rest ++ x :: after).takeWhile (· != '"') = rest.takeWhile (· != '"') := by
      have length := congrArg List.length whole
      simp only [found, List.length_append, List.length_cons] at length
      rw [List.takeWhile_append, if_neg (by omega)]
    simp only [splitString, found, drop, take, extended]

/-- Only a dot begins a fraction. -/
theorem splitFraction?_cons_of_ne {c : Char} (other : c ≠ '.') (rest : List Char) :
    splitFraction? (c :: rest) = none := by
  unfold splitFraction?
  split
  · rename_i same
    exact absurd (List.cons.inj same).1 other
  · rfl

theorem splitFraction?_append (stops : Stops x) (rest : List Char) :
    splitFraction? (rest ++ x :: after) =
      (splitFraction? rest).map fun (fraction, behind) => (fraction, behind ++ x :: after) := by
  cases rest with
  | nil => exact splitFraction?_cons_of_ne stops.dot after
  | cons c rest =>
    by_cases dot : c = '.'
    · subst dot
      cases rest with
      | nil => simp [splitFraction?, stops.digit]
      | cons d rest =>
        simp only [List.cons_append, splitFraction?]
        split
        · simp [takeWhile_append_of_stop stops.digit, dropWhile_append_of_stop stops.digit]
        · rfl
    · rw [List.cons_append, splitFraction?_cons_of_ne dot, splitFraction?_cons_of_ne dot]
      rfl

theorem splitNumber_append (stops : Stops x) (digit : Char) (rest : List Char) :
    splitNumber digit (rest ++ x :: after) = extended x after (splitNumber digit rest) := by
  simp only [splitNumber, takeWhile_append_of_stop stops.digit,
    dropWhile_append_of_stop stops.digit, splitFraction?_append after stops]
  cases splitFraction? (rest.dropWhile Char.isDigit) <;> rfl

theorem splitWord_append (stops : Stops x) (letter : Char) (rest : List Char) :
    splitWord letter (rest ++ x :: after) = extended x after (splitWord letter rest) := by
  simp only [splitWord, takeWhile_append_of_stop stops.word, dropWhile_append_of_stop stops.word,
    extended]

/-- A mark stands for itself where no `=` follows. -/
theorem splitMark_cons_of_ne {d : Char} (other : d ≠ '=') (c : Char) (mark : Mark)
    (rest : List Char) : splitMark c mark (d :: rest) = (.lexeme (.mark mark) [c], d :: rest) := by
  unfold splitMark
  split
  · rename_i same
    exact absurd (List.cons.inj same).1 other
  · rfl

theorem splitMark_append (stops : Stops x) (c : Char) (mark : Mark) (rest : List Char) :
    splitMark c mark (rest ++ x :: after) = extended x after (splitMark c mark rest) := by
  cases rest with
  | nil =>
    rw [List.nil_append, splitMark_cons_of_ne stops.equal]
    simp [splitMark, extended]
  | cons d rest =>
    by_cases equal : d = '='
    · subst equal
      unfold splitMark
      cases mark.withEqual? <;> rfl
    · rw [List.cons_append, splitMark_cons_of_ne equal, splitMark_cons_of_ne equal]
      rfl

/-- A blank behind a source does not change its first piece, if it closes that piece. -/
theorem splitFirst_append (blank : isBlank x = true) (c : Char) (rest : List Char)
    (closed : (splitFirst c rest).1.ClosedBy x) :
    splitFirst c (rest ++ x :: after) = extended x after (splitFirst c rest) := by
  have stops := stops_of_isBlank blank
  cases lead c with
  | blank is => rw [splitFirst_blank is, splitFirst_blank is, extended]
  | quote is =>
    subst is
    rw [splitFirst_quote] at closed ⊢
    rw [splitFirst_quote, splitString_append after rest closed]
  | digit is => rw [splitFirst_digit is, splitFirst_digit is, splitNumber_append after stops]
  | letter is => rw [splitFirst_letter is, splitFirst_letter is, splitWord_append after stops]
  | mark m is =>
    by_cases comment : m = .slash ∧ rest.head? = some '/'
    · obtain ⟨rfl, slash⟩ := comment
      obtain ⟨body, rfl⟩ := List.head?_eq_some_iff.mp slash
      obtain rfl := eq_slash_of_ofChar? is
      rw [splitFirst_comment] at closed ⊢
      obtain rfl : x = '\n' := closed
      rw [List.cons_append, splitFirst_comment, splitComment, splitComment,
        takeWhile_append_of_stop (by decide), dropWhile_append_of_stop (by decide), extended]
    · have single : m = .slash → rest.head? ≠ some '/' := fun h h' => comment ⟨h, h'⟩
      have single' : m = .slash → (rest ++ x :: after).head? ≠ some '/' := by
        intro h
        cases rest with
        | nil => simpa using stops.slash
        | cons d rest => simpa using single h
      rw [splitFirst_mark is single, splitFirst_mark is single', splitMark_append after stops]
  | nothing notBlank notQuote notDigit notLetter notMark =>
    rw [splitFirst_stray notBlank notQuote notDigit notLetter notMark,
      splitFirst_stray notBlank notQuote notDigit notLetter notMark, extended]

end Append

/-! ## All pieces -/

/-- The pieces of two sources with a blank between them. -/
theorem split_append_blank {x : Char} (blank : isBlank x = true) (first second : List Char)
    (closed : ∀ p ∈ split first, p.ClosedBy x) :
    split (first ++ x :: second) = split first ++ .blank x :: split second := by
  fun_induction split first with
  | case1 => rw [List.nil_append, split_cons, splitFirst_blank blank, List.nil_append]
  | case2 c rest ih =>
    have head : (splitFirst c rest).1.ClosedBy x := closed _ List.mem_cons_self
    rw [List.cons_append, split_cons, splitFirst_append second blank c rest head]
    simp only [extended, List.cons_append]
    rw [ih fun p mem => closed p (List.mem_cons_of_mem _ mem)]

/-! ## Items and their lines -/

/-- An item on another line. -/
def Item.relabel (f : Nat → Nat) : Item → Item
  | .ok token => .ok (token.relabel f)
  | .error diagnostic => .error (diagnostic.relabel f)

/-- The items of pieces of which the first begins on a given line, without an end-of-file token. -/
def stamped (line : Nat) : List Piece → List Item
  | [] => []
  | p :: rest =>
    (p.item? (line + p.lineBreaks)).toList ++ stamped (line + p.lineBreaks) rest

/-- The line breaks within pieces. -/
def lineBreaks (pieces : List Piece) : Nat :=
  (pieces.flatMap Piece.text).count '\n'

theorem lineBreaks_split (source : List Char) : lineBreaks (split source) = source.count '\n' := by
  rw [lineBreaks, flatMap_text_split]

theorem lineBreaks_cons (p : Piece) (rest : List Piece) :
    lineBreaks (p :: rest) = p.lineBreaks + lineBreaks rest := by
  rw [lineBreaks, List.flatMap_cons, List.count_append]
  rfl

theorem items_append (line : Nat) (first second : List Piece) :
    items line (first ++ second) =
      stamped line first ++ items (line + lineBreaks first) second := by
  induction first generalizing line with
  | nil => rfl
  | cons p rest ih =>
    simp only [List.cons_append, items, stamped, ih, List.append_assoc, lineBreaks_cons,
      Nat.add_assoc]

theorem items_eq_stamped (line : Nat) (pieces : List Piece) :
    items line pieces = stamped line pieces ++ [.ok (.endOfFile (line + lineBreaks pieces))] := by
  have whole := items_append line pieces []
  rwa [List.append_nil] at whole

/-- Items that begin on a later line are the same items moved down. -/
theorem items_add (line n : Nat) (pieces : List Piece) :
    items (line + n) pieces = (items line pieces).map (Item.relabel (· + n)) := by
  induction pieces generalizing line with
  | nil => rfl
  | cons p rest ih =>
    have behind : line + n + p.lineBreaks = line + p.lineBreaks + n := by omega
    rw [items, items, behind, ih, List.map_append]
    congr 1
    cases p <;> rfl

/-- The items of two sources with a line break between them: those of the first without its
end-of-file token, then those of the second, moved down by the lines of the first. -/
theorem scan_append_newline (first second : String)
    (closed : ∀ p ∈ split first.toList, p.ClosedBy '\n') :
    scan (first ++ "\n" ++ second) =
      stamped 1 (split first.toList) ++
        (scan second).map (Item.relabel (· + lineCount first)) := by
  have chars : (first ++ "\n" ++ second).toList = first.toList ++ '\n' :: second.toList := by
    simp
  have lines : 1 + lineBreaks (split first.toList) + 1 = 1 + lineCount first := by
    rw [lineBreaks_split, lineCount]
    omega
  rw [scan, chars, split_append_blank (by decide) _ _ closed, items_append, items]
  show _ ++ items (1 + lineBreaks (split first.toList) + 1) _ = _
  rw [lines, items_add, scan]

/-! ## Tokens and errors -/

theorem tokens_append (items items' : List Item) :
    tokens (items ++ items') = tokens items ++ tokens items' :=
  List.filterMap_append

theorem errors_append (items items' : List Item) :
    errors (items ++ items') = errors items ++ errors items' :=
  List.filterMap_append

theorem tokens_relabel (f : Nat → Nat) (items : List Item) :
    tokens (items.map (Item.relabel f)) = (tokens items).map (Token.relabel f) := by
  induction items with
  | nil => rfl
  | cons item rest ih =>
    cases item with
    | ok token => exact congrArg (token.relabel f :: ·) ih
    | error diagnostic => exact ih

theorem errors_relabel (f : Nat → Nat) (items : List Item) :
    errors (items.map (Item.relabel f)) = (errors items).map (Diagnostic.relabel f) := by
  induction items with
  | nil => rfl
  | cons item rest ih =>
    cases item with
    | ok token => exact ih
    | error diagnostic => exact congrArg (diagnostic.relabel f :: ·) ih

theorem mem_errors_iff {items : List Item} {d : Diagnostic} :
    d ∈ errors items ↔ .error d ∈ items := by
  simp only [errors, List.mem_filterMap]
  constructor
  · rintro ⟨item, mem, found⟩
    cases item with
    | ok token => cases found
    | error d' =>
      cases found
      exact mem
  · intro mem
    exact ⟨_, mem, rfl⟩

/-- A line break closes all pieces, unless there is a string among them that nothing closes. -/
theorem closedBy_newline_of_closed {line : Nat} {pieces : List Piece}
    (closed : ∀ line', .error (.lexical line' LexicalFault.unterminatedString.message) ∉
      stamped line pieces) : ∀ p ∈ pieces, p.ClosedBy '\n' := by
  induction pieces generalizing line with
  | nil =>
    intro _ mem
    cases mem
  | cons p rest ih =>
    intro q mem
    rcases List.mem_cons.mp mem with rfl | later
    · cases q with
      | comment body => rfl
      | unclosed body => exact absurd List.mem_cons_self (closed _)
      | _ => trivial
    · exact ih (fun line' h => closed line' (List.mem_append_right _ h)) q later

/-- Pieces without an error are closed by a line break. -/
theorem closedBy_newline_of_errors {line : Nat} {pieces : List Piece}
    (clean : errors (stamped line pieces) = []) : ∀ p ∈ pieces, p.ClosedBy '\n' := by
  apply closedBy_newline_of_closed
  intro line' mem
  have reported := mem_errors_iff.mpr mem
  rw [clean] at reported
  cases reported

/-- No token of a piece ends the source. -/
theorem not_isEnd_of_mem_stamped {line : Nat} {pieces : List Piece}
    (lexemes : ∀ p ∈ pieces, ∀ text, p ≠ .lexeme .endOfFile text) :
    ∀ t ∈ tokens (stamped line pieces), t.isEnd = false := by
  induction pieces generalizing line with
  | nil =>
    intro _ mem
    cases mem
  | cons p rest ih =>
    intro t mem
    rw [stamped, tokens_append] at mem
    rcases List.mem_append.mp mem with now | later
    · cases p with
      | lexeme kind text =>
        cases List.mem_singleton.mp now
        have differs : kind ≠ .endOfFile := fun same =>
          lexemes _ List.mem_cons_self text (by rw [same])
        simp [Token.isEnd, differs]
      | _ => cases now
    · exact ih (fun q h => lexemes q (List.mem_cons_of_mem _ h)) t later

/-- The tokens of a source: those of its pieces, none of which ends it, and an end-of-file token. -/
theorem tokens_scan (source : String) :
    tokens (scan source) = tokens (stamped 1 (split source.toList)) ++
      [.endOfFile (1 + lineBreaks (split source.toList))] := by
  rw [scan, items_eq_stamped, tokens_append]
  rfl

theorem errors_scan (source : String) :
    errors (scan source) = errors (stamped 1 (split source.toList)) := by
  rw [scan, items_eq_stamped, errors_append]
  exact List.append_nil _

theorem not_isEnd_of_mem_tokens_split (source : String) :
    ∀ t ∈ tokens (stamped 1 (split source.toList)), t.isEnd = false :=
  not_isEnd_of_mem_stamped fun _ mem _ => ne_endOfFile_of_mem_split mem

/-! ## Scanning line by line -/

/-- Scanning is **compositional at line breaks**. Behind a source in which every string is closed,
and a line break, a second one scans as it does alone, moved down by the lines of the first; and the
items of the first are its own, but for its end-of-file token. -/
theorem scan_append_newline_of_closed {first : String}
    (closed : ∀ line, .error (.lexical line LexicalFault.unterminatedString.message) ∉ scan first)
    (second : String) :
    ∃ items, scan first = items ++ [.ok (.endOfFile (1 + first.toList.count '\n'))] ∧
      scan (first ++ "\n" ++ second) =
        items ++ (scan second).map (Item.relabel (· + (1 + first.toList.count '\n'))) := by
  have own := items_eq_stamped 1 (split first.toList)
  rw [lineBreaks_split] at own
  refine ⟨stamped 1 (split first.toList), own, ?_⟩
  apply scan_append_newline
  apply closedBy_newline_of_closed
  intro line mem
  apply closed line
  rw [scan, own]
  exact List.mem_append_left _ mem

/-- The two halves of `<=` stay apart on two lines, and errors on either line are kept. -/
theorem scan_append_newline_of_closed_operator :
    errors (scan "@<") = [.lexical 1 (LexicalFault.strayCharacter '@').message] ∧
      ∃ items, scan "@<" = items ++ [.ok (.endOfFile 1)] ∧
        scan ("@<" ++ "\n" ++ "= \"a") = items ++
          [.ok ⟨.mark .equal, "=", 2⟩, .error (.lexical 2 LexicalFault.unterminatedString.message),
            .ok (.endOfFile 2)] := by
  have errs : errors (scan "@<") = [.lexical 1 (LexicalFault.strayCharacter '@').message] := by
    decide +kernel
  have closed : ∀ line,
      .error (.lexical line LexicalFault.unterminatedString.message) ∉ scan "@<" := by
    intro line mem
    have reported := mem_errors_iff.mpr mem
    rw [errs, List.mem_singleton, Diagnostic.lexical.injEq] at reported
    exact absurd reported.2 (by decide)
  obtain ⟨items, own, joined⟩ := scan_append_newline_of_closed closed "= \"a"
  have alone : scan "= \"a" = [.ok ⟨.mark .equal, "=", 1⟩,
      .error (.lexical 1 LexicalFault.unterminatedString.message), .ok (.endOfFile 1)] := by
    decide +kernel
  rw [alone] at joined
  exact ⟨errs, items, own, joined⟩

end LoxLang.Source
