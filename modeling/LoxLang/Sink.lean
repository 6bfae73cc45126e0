/-!
# Sinks

A **sink** takes bytes. It may have room for only so many over its whole life:
it then keeps the first of them and refuses the rest, and a write of which a
part is refused has failed.
-/

namespace LoxLang

/-- The bytes of a text. -/
def utf8 (text : String) : List UInt8 :=
  text.toList.flatMap String.utf8EncodeChar

/-- What a sink has kept, and how many bytes it still has room for; no number
means that there is no limit. -/
structure Sink where
  room : Option Nat
  kept : List UInt8
deriving DecidableEq, Repr

namespace Sink

/-- A sink that has kept nothing yet. -/
def empty (room : Option Nat) : Sink := ⟨room, []⟩

/-- Writes bytes as far as there is room, and says whether there was. -/
def write (s : Sink) (bytes : List UInt8) : Sink × Bool :=
  match s.room with
  | none => (⟨none, s.kept ++ bytes⟩, true)
  | some n => (⟨some (n - bytes.length), s.kept ++ bytes.take n⟩, bytes.length ≤ n)

end Sink

end LoxLang
