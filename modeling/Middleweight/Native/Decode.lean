import Middleweight.Native.Namespace
import Middleweight.Syntax.Terse

/-!
# Native classes from JSON

A host can describe native classes as data: types as text, functions by name. What a name means is
the host's to say.
-/

namespace Middleweight

variable {F : Type}

namespace NativeClass

open Terse (text?)

/-- Adds a described constructor. -/
def addConstructor? (function? : String → Option F) (c : NativeClass F) (j : Json) :
    Option (NativeClass F) := do
  return c.withConstructor (← Json.textPairs? (j.itemsOf "params"))
    (← (text? j "fn").bind function?)

/-- Adds a described method. -/
def addMethod? (function? : String → Option F) (c : NativeClass F) (j : Json) :
    Option (NativeClass F) := do
  let isStatic := ((j.present? "static").bind Json.bool?).getD false
  return c.withMethod (← text? j "name") (← Json.textPairs? (j.itemsOf "params"))
    (text? j "returns") (← (text? j "fn").bind function?) isStatic

/-- Adds a described static field. -/
def addStaticField? (function? : String → Option F) (c : NativeClass F) (j : Json) :
    Option (NativeClass F) := do
  return c.withStaticField (← text? j "name") (← text? j "ty") (← (text? j "fn").bind function?)

/-- The class that a JSON value describes. -/
def decode? (function? : String → Option F) (j : Json) : Option (NativeClass F) := do
  let generics ← (j.itemsOf "generics").mapM Json.str?
  let c : NativeClass F :=
    { «namespace» := ← text? j "namespace", name := ← text? j "name", generics,
      base := (text? j "base").map TypeExpr.parse }
  let c ← (j.itemsOf "constructors").foldlM (addConstructor? function?) c
  let c ← (j.itemsOf "methods").foldlM (addMethod? function?) c
  (j.itemsOf "static_fields").foldlM (addStaticField? function?) c

end NativeClass

end Middleweight
