import Middleweight.Syntax.Basic
import Middleweight.Text.Blank

/-!
# The text of a written type

`TypeExpr.text` writes `Name<A, B>`. `TypeExpr.parse` reads such a text and accepts every other text
too: a name is whatever stands before the next `<`, `,` or `>`, trimmed; a missing `>` is made up, and
what follows the type is dropped. A malformed text thereby becomes a type whose name is unknown.

Every argument list opens with a `<` that is read, so the number of characters bounds the nesting and
the number of arguments; it is the budget of the readers.
-/

namespace Middleweight.TypeExpr

/-! ## Writing -/

mutual

/-- A written type as text. -/
def text : TypeExpr → String
  | ⟨name, generics, _⟩ =>
    match texts generics with
    | [] => name
    | arguments => name ++ "<" ++ String.intercalate ", " arguments ++ ">"

/-- The texts of some written types. -/
def texts : List TypeExpr → List String
  | [] => []
  | t :: rest => t.text :: texts rest

end

/-! ## Reading -/

/-- The characters that end a name. -/
def isDelimiter (c : Char) : Bool := c = '<' || c = ',' || c = '>'

/-- A name at the front of a text, trimmed, and what follows it. -/
def readName (cs : List Char) : String × List Char :=
  (String.ofList (Text.trim (cs.takeWhile (!isDelimiter ·))), cs.dropWhile (!isDelimiter ·))

mutual

/-- A type at the front of a text, and what follows it. -/
def read : Nat → List Char → TypeExpr × List Char
  | 0, cs => ({ name := "" }, cs)
  | fuel + 1, cs =>
    match readName cs with
    | (name, '<' :: rest) =>
      let (generics, rest) := readArguments fuel rest
      ({ name, generics }, rest)
    | (name, rest) => ({ name }, rest)

/-- The arguments of a type, from behind the `<` to behind the `>`. -/
def readArguments : Nat → List Char → List TypeExpr × List Char
  | 0, cs => ([], cs)
  | fuel + 1, cs =>
    match read fuel cs with
    | (arg, ',' :: rest) =>
      let (args, rest) := readArguments fuel rest
      (arg :: args, rest)
    | (arg, '>' :: rest) => ([arg], rest)
    | (arg, rest) => ([arg], rest)

end

/-- Reads any text as a written type. -/
def parse (s : String) : TypeExpr := (read (2 * s.length + 1) s.toList).1

end Middleweight.TypeExpr
