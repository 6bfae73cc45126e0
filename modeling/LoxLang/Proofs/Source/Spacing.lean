import LoxLang.Proofs.Source.Faults

/-!
# Lexemes between blanks

A lexeme is recognised in isolation as in its place. No lexeme grows over a blank that it does not
hold, and no comment begins across one, so every lexeme stands in front of a blank and at the end of
a source (`IsLexeme.stands`). Hence the lexemes of a source, with single spaces between them, scan
to the same tokens again, be there errors in the source or not (`scan_spaced`). Their lines are not
kept: all that is left of the layout are the line breaks within strings.
-/

namespace LoxLang.Source

/-! ## In front of a blank -/

/-- A lexeme stands where no lexeme goes on behind it. -/
theorem IsLexeme.stands_of_ends {kind : TokenKind} {text rest : List Char} (is : IsLexeme kind text)
    (notComment : ¬ ['/', '/'] <+: text ++ rest)
    (ends : ∀ kind' c more, rest.head? = some c → ¬ IsLexeme kind' (text ++ c :: more)) :
    Stands (.lexeme kind text) rest := by
  refine .lexeme is notComment ?_
  intro kind' text' is' front
  by_contra longer
  obtain ⟨more, rfl⟩ : text <+: text' :=
    List.prefix_of_prefix_length_le (List.prefix_append text rest) front (by omega)
  cases more with
  | nil => simp at longer
  | cons c more =>
    obtain ⟨tail, rfl⟩ := (List.prefix_append_right_inj text).mp front
    exact ends kind' c more rfl is'

/-- A lexeme **stands** in front of a blank, and at the end of a source. -/
theorem IsLexeme.stands {kind : TokenKind} {text rest : List Char} (is : IsLexeme kind text)
    (parted : ∀ c, rest.head? = some c → isBlank c = true) : Stands (.lexeme kind text) rest := by
  refine is.stands_of_ends ?_ ?_
  · intro comment
    cases text with
    | nil => exact IsLexeme.ne_nil is
    | cons c body =>
      obtain ⟨rfl, second⟩ := List.cons_prefix_cons.mp comment
      -- The only lexeme that begins with a slash is the slash.
      rcases is.of_mark (m := .slash) rfl with ⟨rfl, -⟩ | ⟨longer, grows, -⟩
      · obtain ⟨tail, rfl⟩ := second
        exact absurd (parted '/' rfl) (by decide)
      · cases grows
  · intro kind' c more next is'
    have dark := is.not_isBlank_of_append is' c List.mem_cons_self
    rw [parted c next] at dark
    cases dark

/-! ## Single spaces -/

/-- The piece that is the lexeme of a token. -/
def Piece.ofToken (t : Token) : Piece := .lexeme t.kind t.lexeme.toList

/-- The pieces of lexemes with single spaces between them. -/
def spaced (ts : List Token) : List Piece :=
  (ts.map Piece.ofToken).intersperse (.blank ' ')

/-- Lexemes with single spaces between them are cut at the spaces. -/
theorem segments_spaced {ts : List Token} (lexemes : ∀ t ∈ ts, IsLexeme t.kind t.lexeme.toList) :
    Segments (spaced ts) (" ".intercalate (ts.map Token.lexeme)).toList := by
  induction ts with
  | nil => exact .nil
  | cons t rest ih =>
    obtain ⟨is, later⟩ := List.forall_mem_cons.mp lexemes
    cases rest with
    | nil =>
      have cut : Segments [Piece.ofToken t] (t.lexeme.toList ++ []) :=
        .cons (is.stands (by simp)) .nil
      simpa [spaced] using cut
    | cons u rest =>
      have cut := Segments.cons (p := .ofToken t) (is.stands (by simp [Piece.text]; decide))
        (Segments.cons (.blank (c := ' ') (by decide)) (ih later))
      simpa [spaced, Piece.ofToken, Piece.text] using cut

theorem filter_speaks_spaced (ts : List Token) :
    (spaced ts).filter Piece.speaks = ts.map Piece.ofToken := by
  induction ts with
  | nil => rfl
  | cons t rest ih =>
    cases rest with
    | nil => rfl
    | cons u rest => exact congrArg (Piece.ofToken t :: ·) ih

/-- The items of the lexemes of tokens are these tokens, but for their lines. -/
theorem items_ofToken {ts : List Token} {items : List Item}
    (gives : List.Forall₂ Gives (ts.map Piece.ofToken) items) :
    errors items = [] ∧
      (tokens items).map (fun t => (t.kind, t.lexeme)) = ts.map fun t => (t.kind, t.lexeme) := by
  induction ts generalizing items with
  | nil =>
    cases gives
    exact ⟨rfl, rfl⟩
  | cons t rest ih =>
    cases gives with
    | cons first others =>
      cases first
      obtain ⟨clean, same⟩ := ih others
      refine ⟨clean, ?_⟩
      rw [List.map_cons, ← same]
      show (t.kind, String.ofList t.lexeme.toList) :: _ = _
      rw [String.ofList_toList]
      rfl

/-- The tokens of a source in front of the end of it. -/
def words (source : String) : List Token :=
  (tokens (scan source)).filter fun t => !t.isEnd

/-- The source that keeps the lexemes of a source, with single spaces between them. -/
def respaced (source : String) : String :=
  " ".intercalate ((words source).map Token.lexeme)

/-- The words of a source are what the pieces of it say. -/
theorem words_eq (source : String) : words source = tokens (stamped 1 (split source.toList)) := by
  have inside := not_isEnd_of_mem_tokens_split source
  rw [words, tokens_scan, List.filter_append, List.filter_eq_self.mpr (by simpa using inside)]
  exact List.append_nil _

/-- The lexemes of a source **scan to themselves**. With single spaces between them they scan
without an error, and to the tokens of the source: the same kinds, what a literal denotes included,
and the same lexemes, in the same order. This holds of every source, with errors in it or without.
-/
theorem scan_spaced (source : String) :
    errors (scan (respaced source)) = [] ∧
      (tokens (scan (respaced source))).map (fun t => (t.kind, t.lexeme)) =
        (tokens (scan source)).map fun t => (t.kind, t.lexeme) := by
  have cut : Segments (split source.toList) source.toList := split_eq_iff.mp rfl
  have lexemes : ∀ t ∈ words source, IsLexeme t.kind t.lexeme.toList := by
    rw [words_eq]
    exact cut.isLexeme_of_mem
  have splitIs : split (respaced source).toList = spaced (words source) :=
    split_eq_iff.mpr (segments_spaced lexemes)
  have gives := stamped_gives 1 (spaced (words source))
  rw [filter_speaks_spaced] at gives
  obtain ⟨clean, same⟩ := items_ofToken gives
  constructor
  · rw [errors_scan, splitIs, clean]
  · rw [tokens_scan, splitIs, List.map_append, same, words_eq, tokens_scan, List.map_append]
    rfl

end LoxLang.Source
