import LoxLang.Proofs.Source.Segmentation

/-!
# The lines of items

An item carries the line on which its piece ends. Items are stamped one after the other with the
line reached, so what an item carries counts the line breaks of the source up to the end of its
piece, and no other (`scan_lines`). A line break that is a piece of its own, one within a string and
one behind a comment all count once: no piece is counted twice, and together they are the source.

That lines never decrease is a consequence: an item further on has the same pieces in front of it,
and more.
-/

namespace LoxLang.Source

/-- The line that an item carries. -/
def Item.line : Item → Nat
  | .ok token => token.line
  | .error diagnostic => diagnostic.line?.getD 0

theorem Piece.line_of_item? {p : Piece} {line : Nat} {item : Item}
    (found : p.item? line = some item) : item.line = line := by
  cases p <;> cases found <;> rfl

/-! ## Lines never decrease -/

theorem le_line_of_mem_items {line : Nat} {pieces : List Piece} {item : Item}
    (mem : item ∈ items line pieces) : line ≤ item.line := by
  induction pieces generalizing line with
  | nil =>
    cases List.mem_singleton.mp mem
    exact Nat.le_refl line
  | cons p rest ih =>
    have reached : line ≤ line + p.lineBreaks := Nat.le_add_right line p.lineBreaks
    rcases List.mem_append.mp mem with now | later
    · rw [Piece.line_of_item? (Option.mem_toList.mp now)]
      exact reached
    · exact Nat.le_trans reached (ih later)

theorem pairwise_line_items (line : Nat) (pieces : List Piece) :
    (items line pieces).Pairwise fun item item' => item.line ≤ item'.line := by
  induction pieces generalizing line with
  | nil => exact List.pairwise_singleton _ _
  | cons p rest ih =>
    rw [items, List.pairwise_append]
    refine ⟨?_, ih _, ?_⟩
    · cases p.item? (line + p.lineBreaks) with
      | none => exact .nil
      | some item => exact List.pairwise_singleton _ _
    · intro item now item' later
      rw [Piece.line_of_item? (Option.mem_toList.mp now)]
      exact le_line_of_mem_items later

/-! ## Lines are exact -/

/-- The **lines of items are exact**. Each item of a source but the last comes from a piece of it,
and carries the line that is reached with the last character of that piece: one more than the line
breaks of the source up to there. A string that nothing closes has no piece behind it. The last item
is the end-of-file token, on the line that the whole source reaches. So lines never decrease. -/
theorem scan_lines (source : String) :
    (∃ pieces, Segments pieces source.toList ∧
      ∀ front item back, scan source = front ++ item :: back → back ≠ [] →
        ∃ before p after, pieces = before ++ p :: after ∧
          source.toList = before.flatMap Piece.text ++ p.text ++ after.flatMap Piece.text ∧
          front.length = (before.filter Piece.speaks).length ∧ Gives p item ∧
          item.line = 1 + (before.flatMap Piece.text ++ p.text).count '\n' ∧
          ∀ body, p = .unclosed body → after = []) ∧
    (∃ items, scan source = items ++ [.ok (.endOfFile (1 + source.toList.count '\n'))]) ∧
    (scan source).Pairwise fun item item' => item.line ≤ item'.line := by
  have segments : Segments (split source.toList) source.toList := split_eq_iff.mp rfl
  have own := items_eq_stamped 1 (split source.toList)
  rw [lineBreaks_split] at own
  refine ⟨⟨_, segments, ?_⟩, ⟨_, own⟩, pairwise_line_items 1 _⟩
  intro front item back cut inner
  obtain ⟨before, p, after, pieces, same, found, -⟩ := exists_piece_of_items cut inner
  rw [pieces] at segments
  refine ⟨before, p, after, pieces, ?_, ?_, Piece.gives_of_item? found, ?_, ?_⟩
  · rw [← segments.flatMap_text, List.flatMap_append, List.flatMap_cons, List.append_assoc]
  · rw [← same]
    exact (stamped_gives 1 before).length_eq.symm
  · rw [Piece.line_of_item? found, lineBreaks, List.flatMap_append, List.flatMap_singleton]
  · rintro body rfl
    exact segments.eq_nil_of_unclosed

/-- A string over two lines carries the second of them. -/
theorem scan_lines_string :
    let source := "a\n\"b\nc\" // d\n@"
    (scan source).map Item.line = [1, 3, 4, 4] ∧
      ∃ (before after : List Char) (p : Piece), source.toList = before ++ p.text ++ after ∧
        Gives p (.ok ⟨.string "b\nc", "\"b\nc\"", 3⟩) ∧ 3 = 1 + (before ++ p.text).count '\n' := by
  intro source
  have cut : scan source = [.ok ⟨.identifier, "a", 1⟩] ++ .ok ⟨.string "b\nc", "\"b\nc\"", 3⟩ ::
      [.error (.lexical 4 (LexicalFault.strayCharacter '@').message), .ok (.endOfFile 4)] := by
    decide +kernel
  obtain ⟨⟨_, -, each⟩, -⟩ := scan_lines source
  obtain ⟨before, p, after, -, spelled, -, gives, line, -⟩ := each _ _ _ cut (by simp)
  exact ⟨by rw [cut]; rfl, _, _, p, spelled, gives, line⟩

end LoxLang.Source
