import Middleweight.Engine.Host
import Middleweight.Native.Namespace
import Middleweight.Text.Numeral

/-!
# The standard library

A small part of `java.lang`, `java.io` and `java.util`. `StandardFn` names its functions,
`StandardFn.perform` says what they do, and `NativeRegistry.standard` gives the classes.

A list keeps its items as variables, so that an item keeps the class it was added with.
-/

namespace Middleweight

/-- The functions of the standard library. -/
inductive StandardFn where
  | stringLength | stringEquals
  | integerToString | integerParse | floatToString | floatParse | booleanToString
  | systemOut
  | print | println | newline
  | listNew | listAdd | listClear | listContains | listGet | listSize | listSet | listSubList
  | listRemove | listIsEmpty
deriving DecidableEq, Inhabited

namespace StandardFn

open HostProgram

variable {F : Type}

/-- The failure to read a number. -/
def badNumber {α : Type} (text : String) : HostProgram F α :=
  failWith ("For input string: \"" ++ text ++ "\"")

/-- The position that an index names in a list of a given length. -/
def position? (index : Int64) (length : Nat) : Option Nat :=
  if 0 ≤ index.toInt ∧ index.toInt < length then some index.toInt.toNat else none

/-- The failure of an index that names no position. -/
def outOfBounds {α : Type} (index : Int64) (length : Nat) : HostProgram F α :=
  failWith ("Index " ++ toString index.toInt ++ " out of bounds for length " ++ toString length)

/-- Whether `start` and `stop` bound a part of a list of a given length. -/
def isRange (start stop : Int64) (length : Nat) : Bool :=
  0 ≤ start.toInt && start.toInt ≤ stop.toInt && stop.toInt ≤ length

/-- The items from one position up to another. -/
def slice (start stop : Nat) (xs : List (Variable F)) : List (Variable F) :=
  (xs.take stop).drop start

/-- What the functions do. -/
def perform : StandardFn → HostCall F → HostProgram F (Value F)
  | stringLength, call => do
    let s ← call.thisStr
    return .int (Int64.ofNat s.length)
  | stringEquals, call => do
    let s ← call.thisStr
    match (← call.arg 0).value with
    | .str other => return .bool (other == s)
    | _ => return .bool false
  | integerToString, call => do
    let n ← call.intArg 0
    return .str (toString n.toInt)
  | integerParse, call => do
    let text ← call.strArg 0
    match Text.readInt64? (Text.trim text.toList) with
    | some n => return .int n
    | none => badNumber text
  | floatToString, call => do
    let x ← call.floatArg 0
    return .str (Decimal.floatText x)
  | floatParse, call => do
    let text ← call.strArg 0
    match Text.readFloat? (Text.trim text.toList) with
    | some x => return .float x
    | none => badNumber text
  | booleanToString, call => do
    let b ← call.boolArg 0
    return .str (if b then "true" else "false")
  | systemOut, _ =>
    classOf (.named "java.io.PrintStream") fun c => construct c [] fun o => done (.object o)
  | print, call => do
    let text ← call.strArg 0
    write text (done .null)
  | println, call => do
    let text ← call.strArg 0
    write (text ++ "\n") (done .null)
  | newline, _ => write "\n" (done .null)
  | listNew, call => do
    call.initState (.items [])
    return .null
  | listAdd, call => do
    let item ← call.arg 0
    let (o, xs) ← call.items
    setState o (.items (xs ++ [item])) (done .null)
  | listClear, call => do
    let (o, _) ← call.items
    setState o (.items []) (done .null)
  | listContains, call => do
    let needle ← call.arg 0
    let (_, xs) ← call.items
    return .bool (xs.any fun x => x.value.equals needle.value)
  | listGet, call => do
    let index ← call.intArg 0
    let (_, xs) ← call.items
    match (position? index xs.length).bind (xs[·]?) with
    | some x => return x.value
    | none => outOfBounds index xs.length
  | listSize, call => do
    let (_, xs) ← call.items
    return .int (Int64.ofNat xs.length)
  | listSet, call => do
    let index ← call.intArg 0
    let item ← call.arg 1
    let (o, xs) ← call.items
    match position? index xs.length with
    | some i =>
      match xs[i]? with
      | some old => setState o (.items (xs.set i item)) (done old.value)
      | none => outOfBounds index xs.length
    | none => outOfBounds index xs.length
  | listSubList, call => do
    let start ← call.intArg 0
    let stop ← call.intArg 1
    let (_, xs) ← call.items
    if isRange start stop xs.length then
      let part := slice start.toInt.toNat stop.toInt.toNat xs
      allocate call.cls fun o => setState o (.items part) (done (.object o))
    else
      failWith ("fromIndex: " ++ toString start.toInt ++ ", toIndex: " ++ toString stop.toInt ++
        ", length: " ++ toString xs.length)
  | listRemove, call => do
    let index ← call.intArg 0
    let (o, xs) ← call.items
    match position? index xs.length with
    | some i =>
      match xs[i]? with
      | some old => setState o (.items (xs.eraseIdx i)) (done old.value)
      | none => outOfBounds index xs.length
    | none => outOfBounds index xs.length
  | listIsEmpty, call => do
    let (_, xs) ← call.items
    return .bool xs.isEmpty

end StandardFn

instance : HostFunctions StandardFn := ⟨StandardFn.perform⟩

/-! ## The classes -/

namespace NativeClass

open StandardFn

def javaLang : List (NativeClass StandardFn) :=
  [ofName "java.lang" "Object",
   ((ofName "java.lang" "String").withMethod "length" [] (some "int") stringLength).withMethod
     "equals" [("java.lang.Object", "other")] (some "boolean") stringEquals,
   ((ofName "java.lang" "Integer").withStaticMethod
     "toString" [("int", "i")] (some "java.lang.String") integerToString).withStaticMethod
     "parseInt" [("java.lang.String", "s")] (some "int") integerParse,
   ((ofName "java.lang" "Float").withStaticMethod
     "toString" [("float", "f")] (some "java.lang.String") floatToString).withStaticMethod
     "parseFloat" [("java.lang.String", "s")] (some "float") floatParse,
   (ofName "java.lang" "Boolean").withStaticMethod
     "toString" [("boolean", "b")] (some "java.lang.String") booleanToString,
   (ofName "java.lang" "System").withStaticField "out" "java.io.PrintStream" systemOut]

def printStream : NativeClass StandardFn :=
  (((ofName "java.io" "PrintStream").withMethod "print" [("java.lang.String", "s")] none print
    ).withMethod "println" [("java.lang.String", "s")] none println
    ).withMethod "println" [] none newline

def list : NativeClass StandardFn :=
  let empty : NativeClass StandardFn :=
    { «namespace» := "java.util", name := "List", generics := ["E"] }
  ((((((((((empty.withConstructor [] listNew
    ).withMethod "add" [("E", "item")] none listAdd
    ).withMethod "clear" [] none listClear
    ).withMethod "contains" [("java.lang.Object", "o")] (some "boolean") listContains
    ).withMethod "get" [("int", "index")] (some "E") listGet
    ).withMethod "size" [] (some "int") listSize
    ).withMethod "set" [("int", "index"), ("E", "value")] (some "E") listSet
    ).withMethod "subList" [("int", "fromIndex"), ("int", "toIndex")]
      (some "java.util.List<E>") listSubList
    ).withMethod "remove" [("int", "index")] (some "E") listRemove
    ).withMethod "isEmpty" [] (some "boolean") listIsEmpty)

/-- The classes of the standard library. -/
def standard : List (NativeClass StandardFn) := javaLang ++ [printStream, list]

end NativeClass

/-- The standard library. -/
def NativeRegistry.standard : NativeRegistry StandardFn :=
  NativeRegistry.ofClasses NativeClass.standard

end Middleweight
