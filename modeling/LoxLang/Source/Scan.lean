import LoxLang.Diagnostic
import LoxLang.Source.Piece

/-!
# Scanning

The **items** of a source are its tokens and its lexical errors, in order. An
item stands for one piece and carries the line on which that piece ends; blanks
and comments give no item. `scan` lists the items of a source and closes them
with an end-of-file token.

A `Cursor` walks the same items one at a time. It is the rest of the source and
the line reached, and nothing else.
-/

namespace LoxLang.Source

/-- A token, or the diagnostic that stands in its place. -/
abbrev Item := Except Diagnostic Token

/-- The item of a piece that ends on a given line. -/
def Piece.item? (line : Nat) : Piece → Option Item
  | .blank _ | .comment _ => none
  | .lexeme kind text => some (.ok ⟨kind, String.ofList text, line⟩)
  | .stray c => some (.error (.lexical line (LexicalFault.strayCharacter c).message))
  | .unclosed _ => some (.error (.lexical line LexicalFault.unterminatedString.message))

/-- The items of consecutive pieces of which the first begins on a given line,
with the end-of-file token on the line reached. -/
def items (line : Nat) : List Piece → List Item
  | [] => [.ok (.endOfFile line)]
  | p :: rest =>
    (p.item? (line + p.lineBreaks)).toList ++ items (line + p.lineBreaks) rest

/-- The items of a source. -/
def scan (source : String) : List Item :=
  items 1 (split source.toList)

/-- The tokens among items. -/
def tokens (items : List Item) : List Token :=
  items.filterMap fun
    | .ok token => some token
    | .error _ => none

/-- The lexical errors among items. -/
def errors (items : List Item) : List Diagnostic :=
  items.filterMap fun
    | .ok _ => none
    | .error d => some d

/-- The number of lines of a source, the one after its last line break
included. -/
def lineCount (source : String) : Nat :=
  1 + source.toList.count '\n'

/-! ## Step by step -/

/-- A place in a source: what is left of it, and the line reached. -/
structure Cursor where
  line : Nat
  rest : List Char

namespace Cursor

/-- The beginning of a source. -/
def start (source : String) : Cursor := ⟨1, source.toList⟩

/-- The next item, and the place behind it. There is none when only blanks and
comments are left, and these are then behind the place returned. -/
def next : Cursor → Option Item × Cursor
  | ⟨line, []⟩ => (none, ⟨line, []⟩)
  | ⟨line, c :: rest⟩ =>
    let piece := (splitFirst c rest).1
    let behind : Cursor := ⟨line + piece.lineBreaks, (splitFirst c rest).2⟩
    match piece.item? behind.line with
    | some item => (some item, behind)
    | none => next behind
termination_by cursor => cursor.rest.length
decreasing_by exact length_splitFirst_lt c rest

/-- The next items, one for each of a number of calls, and the place behind
them. -/
def take : Nat → Cursor → List (Option Item) × Cursor
  | 0, cursor => ([], cursor)
  | count + 1, cursor =>
    let (item, behind) := cursor.next
    let (more, last) := take count behind
    (item :: more, last)

/-- All items from a place on, and the end-of-file token. -/
def remaining (cursor : Cursor) : List Item :=
  items cursor.line (split cursor.rest)

end Cursor

end LoxLang.Source
