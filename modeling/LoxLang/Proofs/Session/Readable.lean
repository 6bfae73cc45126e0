import LoxLang.Proofs.Command.Text
import LoxLang.Proofs.Lines.Layout
import LoxLang.Proofs.Number.ReadBack

/-!
# Outlines are readable

An outline tells the statements that it shows, where no string is among their literals and no number
is beyond every finite double: two sources with the same outline have the same statements, up to
lines (`Session.outline_readable`). A string is shown without its quotes, and could be any other
part of an outline.

An outline is **words** between parentheses and blanks. The words are lexemes again, of a kind that
tells the literal or the name: a number is shown by a numeral for it. In front of a blank or of a
parenthesis, a word ends, and so does a tree, whose parentheses close. So what an outline begins
with can be read off it, and what follows can be read in turn (`Expr.Legible.reads`). That a minus
stands for two operators does no harm, as they differ in what follows their first operand.
-/

namespace LoxLang

/-! ## Words -/

/-- The characters of the words of an outline. -/
def inWord (c : Char) : Bool :=
  Source.isWordPart c || c = '.'

/-- A **word** of an outline. -/
def IsWord (text : List Char) : Prop :=
  text ≠ [] ∧ ∀ c ∈ text, inWord c = true

/-- Texts that end in front of a character of another class are told by what they begin. -/
theorem eq_of_append_cons {p : Char → Bool} {text text' x y : List Char} {c c' : Char}
    (inside : ∀ d ∈ text, p d = true) (inside' : ∀ d ∈ text', p d = true) (stop : p c = false)
    (stop' : p c' = false) (same : text ++ c :: x = text' ++ c' :: y) :
    text = text' ∧ c :: x = c' :: y := by
  have front := congrArg (List.takeWhile p) same
  rw [List.takeWhile_append_of_pos inside, List.takeWhile_append_of_pos inside'] at front
  have equal : text = text' := by simpa [stop, stop'] using front
  subst equal
  exact ⟨rfl, List.append_cancel_left same⟩

/-- A lexeme that shows its atom is a word: no string shows itself with its quotes. -/
theorem isWord_of_atom? {t : Token} {e : Expr} (atom : Grammar.atom? t = some e)
    (shown : t.lexeme = e.outline) (is : Source.IsLexeme t.kind t.lexeme.toList) :
    IsWord t.lexeme.toList := by
  obtain ⟨kind, lexeme, line⟩ := t
  have part {c : Char} (h : Source.isWordPart c = true) : inWord c = true := by
    rw [inWord, h, Bool.true_or]
  have digit {c : Char} (h : c.isDigit = true) : inWord c = true :=
    part (by rw [Source.isWordPart, h, Bool.or_true])
  refine ⟨fun empty => Source.IsLexeme.ne_nil (empty ▸ is), ?_⟩
  generalize spelled : lexeme.toList = text at is ⊢
  cases is with
  | mark => cases atom
  | keyword w =>
    obtain ⟨c, body, isWord, start, parts⟩ := w.spelling_isWord
    rw [isWord]
    refine List.forall_mem_cons.mpr ⟨part ?_, fun d mem => part (parts d mem)⟩
    rw [Source.isWordPart, start, Bool.true_or]
  | identifier start parts =>
    refine List.forall_mem_cons.mpr ⟨part ?_, fun d mem => part (parts d mem)⟩
    rw [Source.isWordPart, start, Bool.true_or]
  | @string body =>
    cases atom
    rw [show lexeme = String.ofList body from shown, String.toList_ofList] at spelled
    have longer := congrArg List.length spelled
    simp at longer
    omega
  | number _ digits decimals =>
    intro c mem
    rcases List.mem_append.mp mem with mem | mem
    · exact digit (digits c mem)
    · rcases Source.of_mem_pointed mem with rfl | mem
      · decide
      · exact digit (decimals c mem)

/-! ## Nodes -/

/-- A token that is a mark, and has the spelling of that mark for its lexeme. -/
def Token.IsSpelled (op : Token) (text : String) : Prop :=
  op.lexeme = text ∧ ∃ m : Mark, op.kind = .mark m ∧ text = m.spelling

theorem Token.IsSpelled.relabel_eq {op op' : Token} {text : String} (is : op.IsSpelled text)
    (is' : op'.IsSpelled text) : op.relabel forget = op'.relabel forget := by
  obtain ⟨lexeme, m, kind, spelled⟩ := is
  obtain ⟨lexeme', m', kind', spelled'⟩ := is'
  have mark := Source.IsLexeme.mark m
  rw [← spelled, spelled'] at mark
  rw [Token.relabel, Token.relabel, lexeme, lexeme', kind, kind', mark.kind_unique (.mark m')]
  rfl

namespace Expr

/-- A tree with parts: what its outline begins with, and the parts that follow. -/
inductive IsNode : Expr → String → List Expr → Prop
  | grouping {head : String} (is : head = "group") (inner : Expr) :
      IsNode (.grouping inner) head [inner]
  | unary {head : String} {op : Token} (is : op.IsSpelled head) (operand : Expr) :
      IsNode (.unary op operand) head [operand]
  | binary {head : String} {op : Token} (is : op.IsSpelled head) (left right : Expr) :
      IsNode (.binary left op right) head [left, right]

/-- Trees with a **legible** outline: a word that is a lexeme for the tree, or parts with legible
outlines. -/
inductive Legible : Expr → Prop
  | word {t : Token} {e : Expr} (atom : Grammar.atom? t = some e) (shown : t.lexeme = e.outline)
      (is : Source.IsLexeme t.kind t.lexeme.toList) : Legible e
  | node {e : Expr} {head : String} {parts : List Expr} (is : e.IsNode head parts)
      (legible : ∀ p ∈ parts, Legible p) : Legible e

variable {e e' : Expr} {head : String} {parts parts' : List Expr}

theorem IsNode.outline (is : e.IsNode head parts) :
    e.outline = parenthesised head (parts.map Expr.outline) := by
  cases is with
  | grouping is => rw [is]; rfl
  | unary is => rw [← is.1]; rfl
  | binary is => rw [← is.1]; rfl

theorem IsNode.ne_nil (is : e.IsNode head parts) : parts ≠ [] := by
  cases is <;> simp

theorem IsNode.blank_notMem (is : e.IsNode head parts) : ' ' ∉ head.toList := by
  have mark (m : Mark) : ' ' ∉ m.spelling.toList := by cases m <;> decide
  cases is with
  | grouping is => rw [is]; decide
  | unary is | binary is =>
    obtain ⟨-, m, -, rfl⟩ := is
    exact mark m

/-- A head and the parts tell the tree, up to lines. -/
theorem IsNode.relabel_eq (is : e.IsNode head parts) (is' : e'.IsNode head parts')
    (same : parts.map (Expr.relabel forget) = parts'.map (Expr.relabel forget)) :
    e.relabel forget = e'.relabel forget := by
  have noMark {op : Token} (group : head = "group") : ¬ op.IsSpelled head := by
    rintro ⟨-, m, -, rfl⟩
    cases m <;> simp [Mark.spelling] at group
  cases is with
  | grouping is inner =>
    cases is' with
    | grouping _ inner' =>
      simp only [List.map_cons, List.map_nil, List.cons.injEq, and_true] at same
      rw [Expr.relabel, Expr.relabel, same]
    | unary is' => exact absurd is' (noMark is)
    | binary is' => exact absurd is' (noMark is)
  | unary is operand =>
    cases is' with
    | grouping is' => exact absurd is (noMark is')
    | unary is' operand' =>
      simp only [List.map_cons, List.map_nil, List.cons.injEq, and_true] at same
      rw [Expr.relabel, Expr.relabel, same, is.relabel_eq is']
    | binary => simp at same
  | binary is left right =>
    cases is' with
    | grouping is' => exact absurd is (noMark is')
    | unary => simp at same
    | binary is' left' right' =>
      simp only [List.map_cons, List.map_nil, List.cons.injEq, and_true] at same
      rw [Expr.relabel, Expr.relabel, same.1, same.2, is.relabel_eq is']

/-! ## Reading an outline -/

/-- A tree is **read** off a text that begins with its outline, where a character follows that ends
words: no other legible tree, lines aside, and no other rest make that text. -/
def Reads (e : Expr) : Prop :=
  ∀ {e' : Expr} {c c' : Char} {x y : List Char}, e'.Legible → inWord c = false →
    inWord c' = false → e.outline.toList ++ c :: x = e'.outline.toList ++ c' :: y →
    e.relabel forget = e'.relabel forget ∧ c :: x = c' :: y

/-- The parts of an outline, each behind a blank. -/
def spread (parts : List Expr) : List Char :=
  parts.flatMap fun p => ' ' :: p.outline.toList

theorem spread_cons_append (p : Expr) (rest : List Expr) (x : List Char) :
    spread (p :: rest) ++ x = ' ' :: (p.outline.toList ++ (spread rest ++ x)) := by
  simp [spread]

/-- A head and parts between parentheses, as characters. -/
theorem toList_parenthesised (head : String) (parts : List Expr) :
    (parenthesised head (parts.map Expr.outline)).toList =
      '(' :: (head.toList ++ (spread parts ++ [')'])) := by
  have inner : (" ".intercalate (head :: parts.map Expr.outline)).toList =
      head.toList ++ spread parts := by
    induction parts generalizing head with
    | nil => simp [spread]
    | cons p rest ih =>
      rw [List.map_cons, String.intercalate_cons_cons, String.toList_append, ih]
      simp [spread]
  simp [parenthesised, inner]

/-- Behind a part, a word ends. -/
theorem exists_spread_cons (parts : List Expr) (x : List Char) :
    ∃ c rest, spread parts ++ ')' :: x = c :: rest ∧ inWord c = false := by
  cases parts with
  | nil => exact ⟨')', x, rfl, by decide⟩
  | cons p rest => exact ⟨' ', _, spread_cons_append p rest _, by decide⟩

/-- Parts that are read one at a time are read together, up to the parenthesis behind them. -/
theorem reads_spread (reads : ∀ p ∈ parts, p.Reads) (legible : ∀ p ∈ parts', p.Legible)
    {x y : List Char} (same : spread parts ++ ')' :: x = spread parts' ++ ')' :: y) :
    parts.map (Expr.relabel forget) = parts'.map (Expr.relabel forget) ∧ x = y := by
  induction parts generalizing parts' with
  | nil =>
    cases parts' with
    | nil => exact ⟨rfl, (List.cons.inj same).2⟩
    | cons p' rest' =>
      -- A parenthesis here, and there the blank in front of a part.
      rw [spread_cons_append] at same
      cases (List.cons.inj same).1
  | cons p rest ih =>
    rw [spread_cons_append] at same
    cases parts' with
    | nil => cases (List.cons.inj same).1
    | cons p' rest' =>
      obtain ⟨readFirst, readLater⟩ := List.forall_mem_cons.mp reads
      obtain ⟨legibleFirst, legibleLater⟩ := List.forall_mem_cons.mp legible
      obtain ⟨c, z, behind, stop⟩ := exists_spread_cons rest x
      obtain ⟨c', z', behind', stop'⟩ := exists_spread_cons rest' y
      rw [spread_cons_append, behind, behind'] at same
      obtain ⟨first, later⟩ := readFirst legibleFirst stop stop' (List.cons.inj same).2
      rw [← behind, ← behind'] at later
      obtain ⟨others, equal⟩ := ih readLater legibleLater later
      exact ⟨by rw [List.map_cons, List.map_cons, first, others], equal⟩

/-- Between parentheses, a head without blanks is read, and so are the parts behind it. -/
theorem reads_parenthesised {head' : String} (bare : ' ' ∉ head.toList) (bare' : ' ' ∉ head'.toList)
    (nonempty : parts ≠ []) (nonempty' : parts' ≠ []) (reads : ∀ p ∈ parts, p.Reads)
    (legible : ∀ p ∈ parts', p.Legible) {x y : List Char}
    (same : (parenthesised head (parts.map Expr.outline)).toList ++ x =
      (parenthesised head' (parts'.map Expr.outline)).toList ++ y) :
    head = head' ∧ parts.map (Expr.relabel forget) = parts'.map (Expr.relabel forget) ∧ x = y := by
  obtain ⟨p, rest, rfl⟩ := List.exists_cons_of_ne_nil nonempty
  obtain ⟨p', rest', rfl⟩ := List.exists_cons_of_ne_nil nonempty'
  simp only [toList_parenthesised, List.cons_append, List.append_assoc, List.nil_append,
    spread_cons_append] at same
  have inside := (List.cons.inj same).2
  have noBlank {text : List Char} (bare : ' ' ∉ text) : ∀ d ∈ text, (d != ' ') = true := by
    intro d mem
    exact bne_iff_ne.mpr fun blank => bare (blank ▸ mem)
  obtain ⟨heads, later⟩ :=
    eq_of_append_cons (noBlank bare) (noBlank bare') (by decide) (by decide) inside
  rw [← spread_cons_append, ← spread_cons_append] at later
  obtain ⟨same, equal⟩ := reads_spread reads legible later
  exact ⟨String.toList_inj.mp heads, same, equal⟩

/-- No word begins with a parenthesis. -/
theorem word_ne_node {text x y : List Char} (word : IsWord text) : text ++ x ≠ '(' :: y := by
  obtain ⟨nonempty, inside⟩ := word
  obtain ⟨c, text, rfl⟩ := List.exists_cons_of_ne_nil nonempty
  intro same
  obtain ⟨rfl, -⟩ := List.cons.inj same
  exact absurd (inside '(' List.mem_cons_self) (by decide)

/-- A legible tree is read off its outline. -/
theorem Legible.reads (legible : e.Legible) : e.Reads := by
  induction legible with
  | @word t e atom shown is =>
    intro e' c c' x y legible' stop stop' same
    have word := isWord_of_atom? atom shown is
    rw [← shown] at same
    cases legible' with
    | @word t' _ atom' shown' is' =>
      have word' := isWord_of_atom? atom' shown' is'
      rw [← shown'] at same
      obtain ⟨texts, equal⟩ := eq_of_append_cons word.2 word'.2 stop stop' same
      -- A text is a lexeme of one kind, so the two words are one token but for its line.
      have token : t.relabel forget = t'.relabel forget := by
        rw [texts] at is
        rw [Token.relabel, Token.relabel, String.toList_inj.mp texts, is.kind_unique is']
        rfl
      have atoms := congrArg Grammar.atom? token
      rw [Grammar.atom?_relabel, Grammar.atom?_relabel, atom, atom'] at atoms
      exact ⟨Option.some.inj atoms, equal⟩
    | node is' =>
      rw [is'.outline, toList_parenthesised] at same
      exact absurd same (word_ne_node word)
  | @node e head parts is legible ih =>
    intro e' c c' x y legible' stop stop' same
    rw [is.outline] at same
    cases legible' with
    | word atom' shown' is' =>
      rw [← shown', toList_parenthesised] at same
      exact absurd same.symm (word_ne_node (isWord_of_atom? atom' shown' is'))
    | node is' legible' =>
      rw [is'.outline] at same
      obtain ⟨rfl, parts, equal⟩ := reads_parenthesised is.blank_notMem is'.blank_notMem is.ne_nil
        is'.ne_nil ih legible' same
      exact ⟨is.relabel_eq is' parts, equal⟩

end Expr

/-! ## Statements -/

namespace Stmt

/-- What the outline of a statement begins with, and the parts that follow. -/
def node : Stmt → String × List Expr
  | .expression e => (";", [e])
  | .print e => ("print", [e])
  | .declare name none => ("var", [.name name])
  | .declare name (some initial) => ("var", [.name name, initial])

/-- Whether the parts of a statement have a legible outline. -/
def Legible (s : Stmt) : Prop := ∀ p ∈ s.node.2, p.Legible

theorem outline_eq (s : Stmt) :
    s.outline = parenthesised s.node.1 (s.node.2.map Expr.outline) := by
  rcases s with e | e | ⟨name, _ | initial⟩ <;> rfl

/-- A head and the parts tell the statement, up to lines. -/
theorem relabel_eq_of_node {s s' : Stmt} (heads : s.node.1 = s'.node.1)
    (parts : s.node.2.map (Expr.relabel forget) = s'.node.2.map (Expr.relabel forget)) :
    s.relabel forget = s'.relabel forget := by
  rcases s with e | e | ⟨name, _ | initial⟩ <;> rcases s' with e' | e' | ⟨name', _ | initial'⟩ <;>
    simp_all [node, Stmt.relabel, Expr.relabel]

/-- A legible statement is read off its outline, whatever follows. -/
theorem Legible.reads {s s' : Stmt} (legible : s.Legible) (legible' : s'.Legible)
    {x y : List Char} (same : s.outline.toList ++ x = s'.outline.toList ++ y) :
    s.relabel forget = s'.relabel forget ∧ x = y := by
  have nonempty (s : Stmt) : s.node.2 ≠ [] := by
    rcases s with e | e | ⟨name, _ | initial⟩ <;> simp [node]
  have bare (s : Stmt) : ' ' ∉ s.node.1.toList := by
    rcases s with e | e | ⟨name, _ | initial⟩ <;> simp [node]
  rw [outline_eq, outline_eq] at same
  obtain ⟨heads, parts, equal⟩ := Expr.reads_parenthesised (bare s) (bare s') (nonempty s)
    (nonempty s') (fun p mem => (legible p mem).reads) legible' same
  exact ⟨relabel_eq_of_node heads parts, equal⟩

end Stmt

theorem toList_outlines_cons (s : Stmt) (rest : List Stmt) :
    (outlines (s :: rest)).toList = s.outline.toList ++ '\n' :: (outlines rest).toList := by
  simp [outlines, String.join_cons]

/-- Legible statements are told by their outlines, up to lines. -/
theorem relabel_eq_of_outlines {ss ss' : List Stmt} (legible : ∀ s ∈ ss, s.Legible)
    (legible' : ∀ s ∈ ss', s.Legible) (same : outlines ss = outlines ss') :
    ss.map (Stmt.relabel forget) = ss'.map (Stmt.relabel forget) := by
  have opens (s : Stmt) (rest : List Stmt) : outlines (s :: rest) ≠ "" := by
    intro empty
    have nothing := congrArg String.toList empty
    simp [toList_outlines_cons] at nothing
  induction ss generalizing ss' with
  | nil =>
    cases ss' with
    | nil => rfl
    | cons s' rest' => exact absurd same.symm (opens s' rest')
  | cons s rest ih =>
    cases ss' with
    | nil => exact absurd same (opens s rest)
    | cons s' rest' =>
      obtain ⟨legibleFirst, legibleLater⟩ := List.forall_mem_cons.mp legible
      obtain ⟨legibleFirst', legibleLater'⟩ := List.forall_mem_cons.mp legible'
      have same := congrArg String.toList same
      rw [toList_outlines_cons, toList_outlines_cons] at same
      obtain ⟨first, later⟩ := legibleFirst.reads legibleFirst' same
      have others := String.toList_inj.mp (List.cons.inj later).2
      rw [List.map_cons, List.map_cons, first, ih legibleLater legibleLater' others]

/-! ## Sources -/

/-- Whether an outline keeps tokens of a kind apart: they are no strings, and no numbers beyond
every finite double. -/
def TokenKind.isPlain : TokenKind → Bool
  | .string _ => false
  | .number x => Number.rank x ≠ Number.infinity
  | _ => true

theorem Token.IsSpelled.of_mark {op : Token} {m : Mark} (kind : op.kind = .mark m)
    (is : Source.IsLexeme op.kind op.lexeme.toList) : op.IsSpelled op.lexeme := by
  refine ⟨rfl, m, kind, String.toList_inj.mp ?_⟩
  rw [kind] at is
  generalize op.lexeme.toList = text at is
  cases is
  rfl

namespace Grammar

/-- Tokens that are lexemes of plain kinds. -/
def Plain (ts : List Token) : Prop :=
  ∀ t ∈ ts, Source.IsLexeme t.kind t.lexeme.toList ∧ t.kind.isPlain = true

/-- What plain tokens derive is legible. -/
theorem Derives.legible {c : Category} {ts : List Token} {e : Expr} (derived : Derives c ts e)
    (plain : Plain ts) : e.Legible := by
  induction derived with
  | descend _ _ ih => exact ih plain
  | @binary c next ls rs l r op m step kind mem left right ihl ihr =>
    refine .node (.binary (.of_mark kind (plain op (by simp)).1) l r) ?_
    have left := ihl fun t mem => plain t (by simp [mem])
    have right := ihr fun t mem => plain t (by simp [mem])
    simp [left, right]
  | @unary ts e op kind operand ih =>
    have spelled : op.IsSpelled op.lexeme := by
      rcases kind with kind | kind <;> exact .of_mark kind (plain op (by simp)).1
    have operand := ih fun t mem => plain t (by simp [mem])
    exact .node (.unary spelled e) (by simp [operand])
  | @number t x kind =>
    obtain ⟨is, finite⟩ := plain t (by simp)
    rw [kind] at is finite
    obtain ⟨bounded, unsigned⟩ := Number.of_isLexeme is
    have finite := Nat.lt_of_le_of_ne bounded (of_decide_eq_true finite)
    exact .word (t := ⟨.number x, (Value.number x).text, t.line⟩) rfl rfl
      (Number.isLexeme_text finite unsigned)
  | @string t contents kind =>
    obtain ⟨-, plain⟩ := plain t (by simp)
    rw [kind] at plain
    cases plain
  | trueLit => exact .word (t := ⟨.keyword .trueLit, "true", 0⟩) rfl rfl (.keyword .trueLit)
  | falseLit => exact .word (t := ⟨.keyword .falseLit, "false", 0⟩) rfl rfl (.keyword .falseLit)
  | nilLit => exact .word (t := ⟨.keyword .nilLit, "nil", 0⟩) rfl rfl (.keyword .nilLit)
  | @name t kind =>
    exact .word (by simp [atom?, kind]) rfl (plain t (by simp)).1
  | @grouping ts e _ _ _ _ _ ih =>
    have inner := ih fun t mem => plain t (by simp [mem])
    exact .node (.grouping rfl e) (by simp [inner])

/-- What plain tokens declare is legible. -/
theorem IsDeclaration.legible {ts : List Token} {s : Stmt} (declared : IsDeclaration ts s)
    (plain : Plain ts) : s.Legible := by
  have word {name : Token} (named : name.kind = .identifier) (mem : name ∈ ts) :
      (Expr.name name).Legible :=
    .word (by simp [atom?, named]) rfl (plain name mem).1
  cases declared with
  | @initialised _ name _ _ ts e _ named _ initial _ =>
    have initial := initial.legible fun t mem => plain t (by simp [mem])
    simp [Stmt.Legible, Stmt.node, word named, initial]
  | @bare _ name _ _ named _ =>
    simp [Stmt.Legible, Stmt.node, word named]
  | statement statement =>
    cases statement with
    | print _ value _ =>
      have value := value.legible fun t mem => plain t (by simp [mem])
      simp [Stmt.Legible, Stmt.node, value]
    | expression value _ =>
      have value := value.legible fun t mem => plain t (by simp [mem])
      simp [Stmt.Legible, Stmt.node, value]

end Grammar

/-- Whether a source has no string literal, and no number literal beyond every finite double. -/
def Source.IsPlain (source : String) : Prop :=
  ∀ t ∈ tokens (scan source), t.kind.isPlain = true

instance (source : String) : Decidable (Source.IsPlain source) :=
  inferInstanceAs (Decidable (∀ t ∈ _, _))

/-- The statements of a plain source are legible. -/
theorem legible_statementsOf {source : String} (plain : Source.IsPlain source) :
    ∀ s ∈ statementsOf source, s.Legible := by
  intro s mem
  obtain ⟨ts, inside, declared⟩ := Grammar.exists_of_mem_statements mem
  refine declared.legible fun t mem => ⟨?_, plain t (inside mem)⟩
  rcases Source.isLexeme_of_mem_tokens (inside mem) with is | last
  · exact is
  · have notEnd := declared.not_isEnd t mem
    rw [last] at notEnd
    cases notEnd

/-- Outlines are **readable**. Two well-formed sources without a string literal, and without a
number literal beyond every finite double, for which the same outline is written, have the same
statements up to lines: trees of the same shape, with operators and names of the same kinds and
lexemes and with the same literal values. -/
theorem Session.outline_readable (b b' : Bindings) {source source' : String}
    (formed : WellFormed source) (formed' : WellFormed source') (plain : Source.IsPlain source)
    (plain' : Source.IsPlain source')
    (same : ((Session.unlimited b).outline none source).1.outline =
      ((Session.unlimited b').outline none source').1.outline) :
    (statementsOf source).map (Stmt.relabel forget) =
      (statementsOf source').map (Stmt.relabel forget) := by
  simp only [outline_unlimited] at same
  have texts := utf8_injective same
  rw [(outline_of_wellFormed formed).2, (outline_of_wellFormed formed').2] at texts
  exact relabel_eq_of_outlines (legible_statementsOf plain) (legible_statementsOf plain') texts

/-- A sign, a difference and a group are told apart, and a numeral is shown without its zeros. -/
theorem Session.outline_readable_minus :
    let source := "var a = -1.50; print -a - (a == nil);"
    let source' := "var a = - 1.5;\n\nprint -a // less\n  - (a == nil);"
    WellFormed source ∧ WellFormed source' ∧ Source.IsPlain source ∧ Source.IsPlain source' ∧
      ((Session.unlimited .empty).outline none source).1.outline =
        utf8 "(var a (- 1.5))\n(print (- (- a) (group (== a nil))))\n" ∧
      (statementsOf source).map (Stmt.relabel forget) =
        (statementsOf source').map (Stmt.relabel forget) ∧
      statementsOf source ≠ statementsOf source' := by
  intro source source'
  have formed : WellFormed source := ⟨by decide +kernel, by decide +kernel⟩
  have formed' : WellFormed source' := ⟨by decide +kernel, by decide +kernel⟩
  have plain : Source.IsPlain source := by decide +kernel
  have plain' : Source.IsPlain source' := by decide +kernel
  have shows : ((Session.unlimited .empty).outline none source).1.outline =
      utf8 "(var a (- 1.5))\n(print (- (- a) (group (== a nil))))\n" := by decide +kernel
  have shows' : ((Session.unlimited .empty).outline none source').1.outline =
      utf8 "(var a (- 1.5))\n(print (- (- a) (group (== a nil))))\n" := by decide +kernel
  exact ⟨formed, formed', plain, plain', shows,
    Session.outline_readable .empty .empty formed formed' plain plain' (shows.trans shows'.symm),
    by decide +kernel⟩

-- A string is shown without its quotes: as a name, here.
example : outlines (statementsOf "print \"a\";") = outlines (statementsOf "print a;") := by
  decide +kernel

end LoxLang
