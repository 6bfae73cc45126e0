import LoxLang.Grammar.Expression

/-!
# The grammar

What it is for tokens to be an expression, a statement or a declaration, said without reference to
any way of reading them. Expressions are stratified into **categories**, each made from the next:
an equality is a chain of comparisons, a comparison a chain of terms, a term a chain of factors, a
factor a chain of unaries, and a unary a primary behind prefix operators.

A chain `operand (operator operand)*` is read from the left (`Derives.binary` extends a chain by
one link), so the tree it prescribes nests to the left; `derives_iff_chain` states the same as a
left fold over the links. Operators and names are the tokens of the input themselves, and a literal
carries what its token denotes.

The relation says nothing of lookahead, of precedence numbers or of how far a reader goes. What it
does settle is which kinds can stand inside of an expression (`Derives.inner`): no semicolon, no end
of the source and no word that begins a statement, which is what later lets a reader stop.
-/

namespace LoxLang.Grammar

/-! ## Categories -/

/-- The categories of expressions, from the loosest to the tightest. -/
inductive Category where
  | equality
  | comparison
  | term
  | factor
  | unary
  | primary
deriving DecidableEq, Repr

namespace Category

/-- The category of the parts of a category. -/
def next? : Category → Option Category
  | .equality => some .comparison
  | .comparison => some .term
  | .term => some .factor
  | .factor => some .unary
  | .unary => some .primary
  | .primary => none

/-- The operators that join the parts of a category. -/
def operators : Category → List Mark
  | .equality => [.bangEqual, .equalEqual]
  | .comparison => [.greater, .greaterEqual, .less, .lessEqual]
  | .term => [.minus, .plus]
  | .factor => [.slash, .star]
  | .unary | .primary => []

/-- The place of a category in the order. -/
def rank : Category → Nat
  | .equality => 1
  | .comparison => 2
  | .term => 3
  | .factor => 4
  | .unary => 5
  | .primary => 6

theorem rank_next {c next : Category} (step : c.next? = some next) : next.rank = c.rank + 1 := by
  cases c <;> cases step <;> rfl

theorem exists_next {c : Category} (loose : c.rank < 6) : ∃ next, c.next? = some next := by
  cases c with
  | primary => exact absurd loose (Nat.lt_irrefl 6)
  | _ => exact ⟨_, rfl⟩

theorem rank_injective {c d : Category} (same : c.rank = d.rank) : c = d := by
  cases c <;> cases d <;> first | rfl | cases same

theorem rank_le_six (c : Category) : c.rank ≤ 6 := by
  cases c <;> decide

theorem one_le_rank (c : Category) : 1 ≤ c.rank := by
  cases c <;> decide

/-- The operators of a category bind at its rank. -/
theorem level_of_mem_operators {c : Category} {m : Mark} (mem : m ∈ c.operators) :
    level (.mark m) = c.rank ∧ c.rank ≤ 4 := by
  cases c <;> simp only [operators, List.mem_cons, List.not_mem_nil, or_false] at mem
  case equality => rcases mem with rfl | rfl <;> decide
  case comparison => rcases mem with rfl | rfl | rfl | rfl <;> decide
  case term => rcases mem with rfl | rfl <;> decide
  case factor => rcases mem with rfl | rfl <;> decide

/-- What binds at all is an operator of one category. -/
theorem exists_of_level_pos {kind : TokenKind} (binds : 0 < level kind) :
    ∃ c m, kind = .mark m ∧ m ∈ operators c ∧ c.rank = level kind := by
  unfold level at binds ⊢
  split at binds
  · exact ⟨.equality, _, rfl, by decide, rfl⟩
  · exact ⟨.equality, _, rfl, by decide, rfl⟩
  · exact ⟨.comparison, _, rfl, by decide, rfl⟩
  · exact ⟨.comparison, _, rfl, by decide, rfl⟩
  · exact ⟨.comparison, _, rfl, by decide, rfl⟩
  · exact ⟨.comparison, _, rfl, by decide, rfl⟩
  · exact ⟨.term, _, rfl, by decide, rfl⟩
  · exact ⟨.term, _, rfl, by decide, rfl⟩
  · exact ⟨.factor, _, rfl, by decide, rfl⟩
  · exact ⟨.factor, _, rfl, by decide, rfl⟩
  · cases binds

end Category

/-! ## Expressions -/

/-- Tokens that derive an expression in a category. -/
inductive Derives : Category → List Token → Expr → Prop
  /-- A part alone. -/
  | descend {c next : Category} {ts : List Token} {e : Expr} (step : c.next? = some next)
      (part : Derives next ts e) : Derives c ts e
  /-- A chain and one more link. -/
  | binary {c next : Category} {ls rs : List Token} {l r : Expr} {op : Token} {m : Mark}
      (step : c.next? = some next) (kind : op.kind = .mark m) (mem : m ∈ c.operators)
      (left : Derives c ls l) (right : Derives next rs r) :
      Derives c (ls ++ op :: rs) (.binary l op r)
  | unary {ts : List Token} {e : Expr} {op : Token}
      (kind : op.kind = .mark .bang ∨ op.kind = .mark .minus) (operand : Derives .unary ts e) :
      Derives .unary (op :: ts) (.unary op e)
  | number {t : Token} {value : Float} (kind : t.kind = .number value) :
      Derives .primary [t] (.literal (.number value))
  | string {t : Token} {contents : String} (kind : t.kind = .string contents) :
      Derives .primary [t] (.literal (.string contents))
  | trueLit {t : Token} (kind : t.kind = .keyword .trueLit) :
      Derives .primary [t] (.literal (.bool true))
  | falseLit {t : Token} (kind : t.kind = .keyword .falseLit) :
      Derives .primary [t] (.literal (.bool false))
  | nilLit {t : Token} (kind : t.kind = .keyword .nilLit) : Derives .primary [t] (.literal .nil)
  | name {t : Token} (kind : t.kind = .identifier) : Derives .primary [t] (.name t)
  | grouping {ts : List Token} {e : Expr} {opening closing : Token}
      (opens : opening.kind = .mark .leftParen) (closes : closing.kind = .mark .rightParen)
      (inner : Derives .equality ts e) :
      Derives .primary (opening :: (ts ++ [closing])) (.grouping e)

/-- What is derived in a category is derived in every looser one. -/
theorem Derives.loosen {c d : Category} {ts : List Token} {e : Expr} (looser : c.rank ≤ d.rank)
    (derived : Derives d ts e) : Derives c ts e := by
  -- The categories between the two are passed one at a time, from `c` down.
  generalize gap : d.rank - c.rank = n
  induction n generalizing c with
  | zero =>
    have same : c = d := Category.rank_injective (by omega)
    exact same ▸ derived
  | succ n ih =>
    have bound := Category.rank_le_six d
    have loose : c.rank < 6 := by omega
    obtain ⟨next, step⟩ := Category.exists_next loose
    have up := Category.rank_next step
    exact .descend step (ih (by omega) (by omega))

/-! ## Chains -/

/-- One link of a chain: an operator and the operand behind it. -/
structure Link where
  op : Token
  tokens : List Token
  operand : Expr

namespace Link

/-- The tokens of a link. -/
def spelling (link : Link) : List Token := link.op :: link.tokens

/-- The tree of a chain with one more link. -/
def attach (left : Expr) (link : Link) : Expr := .binary left link.op link.operand

/-- A link of a category whose operands are of another. -/
def Joins (c next : Category) (link : Link) : Prop :=
  (∃ m, link.op.kind = .mark m ∧ m ∈ c.operators) ∧ Derives next link.tokens link.operand

end Link

/-- A first operand and links are a chain, and its tree is their fold from the left. -/
theorem derives_of_chain {c next : Category} (step : c.next? = some next) {first : List Token}
    {e : Expr} (operand : Derives next first e) (links : List Link)
    (joined : ∀ link ∈ links, link.Joins c next) :
    Derives c (first ++ links.flatMap Link.spelling) (links.foldl Link.attach e) := by
  have start : Derives c first e := .descend step operand
  clear operand
  induction links generalizing first e with
  | nil => simpa only [List.flatMap_nil, List.append_nil, List.foldl_nil] using start
  | cons link links ih =>
    obtain ⟨⟨m, kind, mem⟩, right⟩ := joined link List.mem_cons_self
    have more := ih (fun l hl => joined l (List.mem_cons_of_mem _ hl))
      (.binary step kind mem start right)
    simpa only [List.flatMap_cons, Link.spelling, List.append_assoc, List.cons_append,
      List.foldl_cons, Link.attach] using more

/-- A binary category derives exactly the left folds of its chains. -/
theorem derives_iff_chain {c next : Category} (step : c.next? = some next) (binary : c ≠ .unary)
    {ts : List Token} {e : Expr} :
    Derives c ts e ↔ ∃ (first : List Token) (operand : Expr) (links : List Link),
      Derives next first operand ∧ (∀ link ∈ links, link.Joins c next) ∧
      ts = first ++ links.flatMap Link.spelling ∧ e = links.foldl Link.attach operand := by
  constructor
  · intro derived
    induction derived with
    | descend step' part =>
      cases step.symm.trans step'
      exact ⟨_, _, [], part, fun _ h => absurd h List.not_mem_nil, by simp, rfl⟩
    | @binary _ _ ls rs l r op m step' kind mem left right ihl _ =>
      cases step.symm.trans step'
      obtain ⟨first, operand, links, hfirst, joined, rfl, rfl⟩ := ihl step binary
      refine ⟨first, operand, links ++ [⟨op, rs, r⟩], hfirst, ?_, ?_, ?_⟩
      · intro link mem'
        rcases List.mem_append.mp mem' with old | last
        · exact joined link old
        · cases List.mem_singleton.mp last
          exact ⟨⟨m, kind, mem⟩, right⟩
      · simp [Link.spelling]
      · simp [Link.attach]
    | unary => exact absurd rfl binary
    | _ => cases step
  · rintro ⟨first, operand, links, hfirst, joined, rfl, rfl⟩
    exact derives_of_chain step hfirst links joined

/-! ## Kinds within an expression -/

/-- Kinds that can stand within an expression as far as statements are concerned: they neither end
nor begin one. -/
structure Inner (kind : TokenKind) : Prop where
  notEnd : kind ≠ .endOfFile
  notSemicolon : kind ≠ .mark .semicolon
  notStart : kind.startsStatement = false

/-- No operator ends or begins a statement. -/
theorem inner_of_mem_operators {c : Category} {m : Mark} (mem : m ∈ c.operators) :
    Inner (.mark m) := by
  refine ⟨by simp, ?_, rfl⟩
  rintro ⟨⟩
  cases c <;> simp [Category.operators] at mem

/-- Every token of an expression is an inner one. -/
theorem Derives.inner {c : Category} {ts : List Token} {e : Expr} (derived : Derives c ts e) :
    ∀ t ∈ ts, Inner t.kind := by
  have single {t : Token} (h : Inner t.kind) : ∀ u ∈ [t], Inner u.kind := by
    intro u mem
    cases List.mem_singleton.mp mem
    exact h
  induction derived with
  | descend _ _ ih => exact ih
  | binary _ kind mem _ _ ihl ihr =>
    intro t ht
    rcases List.mem_append.mp ht with h | h
    · exact ihl t h
    rcases List.mem_cons.mp h with rfl | h
    · exact kind ▸ inner_of_mem_operators mem
    · exact ihr t h
  | unary kind _ ih =>
    intro t ht
    rcases List.mem_cons.mp ht with rfl | h
    · rcases kind with kind | kind <;> exact kind ▸ ⟨by simp, by simp, rfl⟩
    · exact ih t h
  | grouping opens closes _ ih =>
    intro t ht
    rcases List.mem_cons.mp ht with rfl | h
    · exact opens ▸ ⟨by simp, by simp, rfl⟩
    rcases List.mem_append.mp h with h | h
    · exact ih t h
    · cases List.mem_singleton.mp h
      exact closes ▸ ⟨by simp, by simp, rfl⟩
  | number kind => exact single (kind ▸ ⟨by simp, by simp, rfl⟩)
  | string kind => exact single (kind ▸ ⟨by simp, by simp, rfl⟩)
  | trueLit kind => exact single (kind ▸ ⟨by simp, by simp, rfl⟩)
  | falseLit kind => exact single (kind ▸ ⟨by simp, by simp, rfl⟩)
  | nilLit kind => exact single (kind ▸ ⟨by simp, by simp, rfl⟩)
  | name kind => exact single (kind ▸ ⟨by simp, by simp, rfl⟩)

/-- An expression has a first token. -/
theorem Derives.ne_nil {c : Category} {ts : List Token} {e : Expr} (derived : Derives c ts e) :
    ts ≠ [] := by
  induction derived with
  | descend _ _ ih => exact ih
  | _ => simp

/-! ## Statements and declarations -/

/-- Tokens that are a statement. -/
inductive IsStatement : List Token → Stmt → Prop
  | print {word semicolon : Token} {ts : List Token} {e : Expr}
      (kind : word.kind = .keyword .print) (value : Derives .equality ts e)
      (closes : semicolon.kind = .mark .semicolon) :
      IsStatement (word :: (ts ++ [semicolon])) (.print e)
  | expression {semicolon : Token} {ts : List Token} {e : Expr} (value : Derives .equality ts e)
      (closes : semicolon.kind = .mark .semicolon) :
      IsStatement (ts ++ [semicolon]) (.expression e)

/-- Tokens that are a declaration: a variable with or without an initial value, or a statement. -/
inductive IsDeclaration : List Token → Stmt → Prop
  | initialised {word name equal semicolon : Token} {ts : List Token} {e : Expr}
      (kind : word.kind = .keyword .varDecl) (named : name.kind = .identifier)
      (assigns : equal.kind = .mark .equal) (initial : Derives .equality ts e)
      (closes : semicolon.kind = .mark .semicolon) :
      IsDeclaration (word :: name :: equal :: (ts ++ [semicolon])) (.declare name (some e))
  | bare {word name semicolon : Token} (kind : word.kind = .keyword .varDecl)
      (named : name.kind = .identifier) (closes : semicolon.kind = .mark .semicolon) :
      IsDeclaration [word, name, semicolon] (.declare name none)
  | statement {ts : List Token} {s : Stmt} (statement : IsStatement ts s) : IsDeclaration ts s

/-- No declaration holds the end of the source. -/
theorem IsDeclaration.not_isEnd {ts : List Token} {s : Stmt} (declared : IsDeclaration ts s) :
    ∀ t ∈ ts, t.isEnd = false := by
  have other {t : Token} {kind : TokenKind} (same : t.kind = kind) (differs : kind ≠ .endOfFile) :
      t.isEnd = false := by
    simp [Token.isEnd, same, differs]
  have inside {ts : List Token} {e : Expr} (derived : Derives .equality ts e) {t semicolon : Token}
      (closes : semicolon.kind = .mark .semicolon) (mem : t ∈ ts ++ [semicolon]) :
      t.isEnd = false := by
    rcases List.mem_append.mp mem with h | h
    · exact other rfl (derived.inner t h).notEnd
    · cases List.mem_singleton.mp h
      exact other closes (by simp)
  intro t mem
  rcases declared with ⟨kind, named, assigns, initial, closes⟩ | ⟨kind, named, closes⟩ |
    ⟨⟨kind, value, closes⟩ | ⟨value, closes⟩⟩
  · rcases List.mem_cons.mp mem with rfl | mem
    · exact other kind (by simp)
    rcases List.mem_cons.mp mem with rfl | mem
    · exact other named (by simp)
    rcases List.mem_cons.mp mem with rfl | mem
    · exact other assigns (by simp)
    · exact inside initial closes mem
  · simp only [List.mem_cons, List.not_mem_nil, or_false] at mem
    rcases mem with rfl | rfl | rfl
    · exact other kind (by simp)
    · exact other named (by simp)
    · exact other closes (by simp)
  · rcases List.mem_cons.mp mem with rfl | mem
    · exact other kind (by simp)
    · exact inside value closes mem
  · exact inside value closes mem

/-- A declaration has a first token. -/
theorem IsDeclaration.ne_nil {ts : List Token} {s : Stmt} (declared : IsDeclaration ts s) :
    ts ≠ [] := by
  rcases declared with _ | _ | ⟨_ | _⟩ <;> simp

end LoxLang.Grammar
