import Middleweight.Text.Numeral

/-!
# Settings files

A settings file consists of lines: a section header in brackets, a key and its value, or nothing but
a comment. Keys may be quoted and dotted. Values are truth values, whole numbers and strings. No
section is opened twice and no key set twice.

Each reader returns what is left of its line; the readers of strings recurse on the line.
-/

namespace Middleweight.Settings

/-- The value of a setting. -/
inductive Value where
  | bool (b : Bool)
  | int (n : Int)
  | text (s : String)
deriving DecidableEq, Inhabited

/-- A setting: its key with the section in front, and its value. -/
structure Setting where
  key : List String
  value : Value
deriving DecidableEq, Inhabited

/-- One line. -/
inductive Line where
  | blank
  | header (name : List String)
  | setting (key : List String) (value : Value)
deriving DecidableEq, Inhabited

/-! ## Characters -/

def isSpace (c : Char) : Bool := c = ' ' || c = '\t'

def skipSpace (cs : List Char) : List Char := cs.dropWhile isSpace

/-- Characters that may stand in comments and strings. -/
def isPlain (c : Char) : Bool := c = '\t' || (0x20 ≤ c.toNat && c.toNat ≠ 0x7F)

/-- Characters of keys without quotes. -/
def isKeyChar (c : Char) : Bool := c.isAlphanum || c = '_' || c = '-'

/-! ## Strings -/

def hexDigit? (c : Char) : Option Nat :=
  let n := c.toNat
  if '0' ≤ c ∧ c ≤ '9' then some (n - '0'.toNat)
  else if 'a' ≤ c ∧ c ≤ 'f' then some (n - 'a'.toNat + 10)
  else if 'A' ≤ c ∧ c ≤ 'F' then some (n - 'A'.toNat + 10)
  else none

/-- The character of a code given by hexadecimal digits. -/
def charOfHex? (digits : List Char) : Option Char := do
  let values ← digits.mapM hexDigit?
  let n := values.foldl (fun acc d => 16 * acc + d) 0
  if h : n.isValidChar then some (Char.ofNatAux n h) else none

/-- The character that a single letter behind a backslash stands for. -/
def escaped? : Char → Option Char
  | 'b' => some '\x08'
  | 't' => some '\t'
  | 'n' => some '\n'
  | 'f' => some '\x0c'
  | 'r' => some '\r'
  | '"' => some '"'
  | '\\' => some '\\'
  | _ => none

/-- The rest of a string in double quotes, read backwards into `acc`. -/
def readEscaped (acc : List Char) : List Char → Option (String × List Char)
  | [] => none
  | '"' :: rest => some (String.ofList acc.reverse, rest)
  | '\\' :: 'u' :: a :: b :: c :: d :: rest => do
    readEscaped ((← charOfHex? [a, b, c, d]) :: acc) rest
  | '\\' :: 'U' :: a :: b :: c :: d :: e :: f :: g :: h :: rest => do
    readEscaped ((← charOfHex? [a, b, c, d, e, f, g, h]) :: acc) rest
  | '\\' :: c :: rest => do readEscaped ((← escaped? c) :: acc) rest
  | c :: rest => if isPlain c && c ≠ '\\' then readEscaped (c :: acc) rest else none

/-- A string in double quotes, or in single quotes, in which nothing is escaped. -/
def readString : List Char → Option (String × List Char)
  | '"' :: rest => readEscaped [] rest
  | '\'' :: rest =>
    let (body, rest) := rest.span (· ≠ '\'')
    match rest with
    | [] => none
    | _ :: rest => if body.all isPlain then some (String.ofList body, rest) else none
  | _ => none

/-! ## Keys -/

/-- One part of a key, with or without quotes. -/
def readPart (cs : List Char) : Option (String × List Char) :=
  match readString cs with
  | some r => some r
  | none =>
    let (name, rest) := cs.span isKeyChar
    if name.isEmpty then none else some (String.ofList name, rest)

/-- A dotted key of at most a given number of parts. -/
def readKeyWithin : Nat → List Char → Option (List String × List Char)
  | 0, _ => none
  | fuel + 1, cs => do
    let (part, rest) ← readPart (skipSpace cs)
    match skipSpace rest with
    | '.' :: rest => do
      let (parts, rest) ← readKeyWithin fuel rest
      return (part :: parts, rest)
    | rest => return ([part], rest)

/-- A dotted key; every part takes a character of the line. -/
def readKey (cs : List Char) : Option (List String × List Char) := readKeyWithin (cs.length + 1) cs

/-! ## Values -/

/-- Digits of a base, which single underscores may divide. -/
def readDigits? (base : Nat) (cs : List Char) : Option Nat :=
  let groups := (String.ofList cs).splitOn "_"
  if groups.any (·.isEmpty) then none
  else do
    let values ← (groups.flatMap String.toList).mapM hexDigit?
    if values.all (· < base) then some (values.foldl (fun acc d => base * acc + d) 0) else none

/-- A whole number: decimal with an optional sign, or in another base with a mark in front. -/
def readInteger? (cs : List Char) : Option Int :=
  match cs with
  | '0' :: 'x' :: ds => (readDigits? 16 ds).map Int.ofNat
  | '0' :: 'o' :: ds => (readDigits? 8 ds).map Int.ofNat
  | '0' :: 'b' :: ds => (readDigits? 2 ds).map Int.ofNat
  | cs =>
    let (negative, ds) := Text.splitSign cs
    if ds.length > 1 && ds.head? = some '0' then none
    else (readDigits? 10 ds).map fun n => if negative then -(n : Int) else n

/-- A whole number of 64 bits. -/
def readInt64? (cs : List Char) : Option Int :=
  (readInteger? cs).filter Text.fitsInt64

/-- A value without quotes ends at a space or at a comment. -/
def isBareEnd (c : Char) : Bool := isSpace c || c = '#'

def readValue (cs : List Char) : Option (Value × List Char) :=
  match readString cs with
  | some (s, rest) => some (.text s, rest)
  | none =>
    let (word, rest) := cs.span fun c => !isBareEnd c
    if word = "true".toList then some (.bool true, rest)
    else if word = "false".toList then some (.bool false, rest)
    else (readInt64? word).map fun n => (.int n, rest)

/-! ## Lines -/

/-- Whether nothing but space and a comment is left of a line. -/
def isEnd (cs : List Char) : Bool :=
  match skipSpace cs with
  | [] => true
  | '#' :: comment => comment.all isPlain
  | _ => false

def readLine (cs : List Char) : Option Line :=
  match skipSpace cs with
  | '[' :: rest => do
    let (name, rest) ← readKey rest
    match rest with
    | ']' :: rest => if isEnd rest then some (.header name) else none
    | _ => none
  | cs =>
    if isEnd cs then some .blank
    else do
      let (key, rest) ← readKey cs
      match rest with
      | '=' :: rest => do
        let (value, rest) ← readValue (skipSpace rest)
        if isEnd rest then some (.setting key value) else none
      | _ => none

/-- A line without the carriage return in front of its line feed. -/
def dropReturn (line : List Char) : List Char :=
  if line.getLast? = some '\r' then line.dropLast else line

/-- The lines of a text; the last one ends with the text, not with a line feed. -/
def lines (text : String) : List (List Char) :=
  let all := (text.splitOn "\n").map String.toList
  all.dropLast.map dropReturn ++ all.getLast?.toList

/-! ## Files -/

/-- What has been read of a file: the open section, the sections so far, and the settings. -/
structure Progress where
  heading : Option (List String) := none
  opened : List (List String) := []
  settings : List Setting := []
deriving Inhabited

/-- Adds a line, unless it repeats a section or a key. -/
def Progress.add (p : Progress) : Line → Option Progress
  | .blank => some p
  | .header name =>
    if name ∈ p.opened || p.settings.any (name.isPrefixOf ·.key) then none
    else some { p with heading := some name, opened := name :: p.opened }
  | .setting key value =>
    let key := p.heading.getD [] ++ key
    if p.settings.any (·.key = key) then none
    else some { p with settings := p.settings ++ [⟨key, value⟩] }

/-- The sections and settings of a file. -/
def parse? (text : String) : Option Progress := do
  let parsed ← (lines text).mapM readLine
  parsed.foldlM Progress.add {}

end Middleweight.Settings
