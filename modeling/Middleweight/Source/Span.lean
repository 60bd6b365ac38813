/-!
# Positions in a source text

A `Span` is a line and a column, both counted from one; line zero marks a node that was made up and
stands nowhere in the text. `Span.position?` walks the text to the place a span names, and gives its
byte offset together with the characters that follow it.

Both walks are structural recursions on the characters that remain.
-/

namespace Middleweight

/-- A line and a column, counted from one. The default `0:0` stands nowhere. -/
structure Span where
  line : UInt32 := 0
  column : UInt32 := 0
deriving DecidableEq, Inhabited

namespace Span

/-- A span is written `line:column`. -/
def text (s : Span) : String :=
  toString s.line.toNat ++ ":" ++ toString s.column.toNat

/-- Line zero marks a node that never stood in a text. -/
def isSynthetic (s : Span) : Bool := s.line == 0

/-! ## From a span to a byte offset -/

/-- Walks past `n` line ends, counting bytes; `none` when the text has fewer. -/
def skipLines : Nat → Nat → List Char → Option (Nat × List Char)
  | 0, offset, text => some (offset, text)
  | _ + 1, _, [] => none
  | n + 1, offset, c :: rest =>
    if c = '\n' then skipLines n (offset + c.utf8Size) rest
    else skipLines (n + 1) (offset + c.utf8Size) rest

/-- Walks past `n` characters of the current line; `none` when the line is shorter. -/
def skipColumns : Nat → Nat → List Char → Option (Nat × List Char)
  | 0, offset, text => some (offset, text)
  | _ + 1, _, [] => none
  | n + 1, offset, c :: rest =>
    if c = '\n' then none else skipColumns n (offset + c.utf8Size) rest

/--
The byte offset of the place a span names, with the characters from there on. Columns count
characters, and column zero is read as column one. The end of a line is a place of that line.
-/
def position? (s : Span) (source : List Char) : Option (Nat × List Char) :=
  if s.isSynthetic then none
  else
    match skipLines (s.line.toNat - 1) 0 source with
    | none => none
    | some (start, line) => skipColumns (s.column.toNat - 1) start line

/-- The byte offset of the place a span names. -/
def offsetIn (s : Span) (source : String) : Option Nat :=
  (s.position? source.toList).map Prod.fst

/-- The byte offset and byte length of the character a span names; the length is zero at the end. -/
def charRange (s : Span) (source : String) : Option (Nat × Nat) :=
  (s.position? source.toList).map fun (offset, rest) =>
    (offset, (rest.head?.map Char.utf8Size).getD 0)

end Span

/-- A span together with the name of the source it belongs to. -/
structure Location where
  source : String
  span : Span
deriving DecidableEq, Inhabited

/-- A location is written `source:line:column`. -/
def Location.text (l : Location) : String := l.source ++ ":" ++ l.span.text

end Middleweight
