import Middleweight.ClassTable.Subtype

/-!
# Overload resolution

A member is chosen level by level along the base classes: the first class with an applicable member
decides. If it has one, that member is found; if it has several, the call is ambiguous, and no member
is preferred to another. A signature is applicable when the arguments fit its parameters, and fit
them again after the parameters bound by the arguments have been put in.

`MemberSource` is what resolution asks of a universe of classes; `Members.Source` gives two of them.
-/

namespace Middleweight

/-- What resolution asks of classes: names, bases and typed members. -/
structure MemberSource (F O : Type) where
  ownerName : O → String
  base : O → Except TypeError (Option O)
  /-- The methods a class itself declares with a given name, static ones or others. -/
  methods : O → String → Bool → Except TypeError (List (Member F × Signature))
  constructors : O → Except TypeError (List (Member F × Signature))
  /-- A bound on the number of classes from a class to its root. -/
  height : O → Nat

/-- A chosen member: who declares it, its signature, and what the arguments bind. -/
structure Selected (F O : Type) where
  owner : O
  member : Member F
  signature : Signature
  bindings : Bindings

/-- The type a chosen member returns under the bindings of the call. -/
def Selected.returnType {F O : Type} (s : Selected F O) : Option Ty :=
  s.signature.returnType.map (Ty.substitute s.bindings)

/-- A call that several members of one class fit. -/
structure Ambiguity where
  className : String
  member : String
  arguments : List Ty
  candidates : List Signature
deriving Inhabited

def Ambiguity.message (a : Ambiguity) : String :=
  "Ambiguous arguments for '" ++ a.className ++ "." ++ a.member ++ "' - (" ++
    Ty.listText a.arguments ++ ") fits " ++
    String.intercalate ", " (a.candidates.map Signature.text)

/-- A call that no member fits. -/
structure Missing where
  className : String
  member : String
  arguments : List Ty
deriving Inhabited

def Missing.message (m : Missing) : String :=
  "No member '" ++ m.member ++ "' of '" ++ m.className ++ "' accepts (" ++
    Ty.listText m.arguments ++ ")"

/-- The outcome of resolution. -/
inductive Resolution (F O : Type) where
  | found (s : Selected F O)
  /-- A class without constructors is made without arguments. -/
  | defaultConstructor
  | ambiguous (a : Ambiguity)
  | missing (m : Missing)

namespace ClassTable

variable {F : Type}

/-- What the arguments bind, if a signature is applicable to them. -/
def applicable (t : ClassTable F) (s : Signature) (args : List Ty) : Option Bindings :=
  let params := s.paramTypes
  if params.length = args.length && t.checkAll args params then
    let bindings := Bindings.infer params args
    if t.checkAll args (Ty.substituteAll bindings params) then some bindings else none
  else none

/-- The applicable ones among some members, in their order. -/
def applicables (t : ClassTable F) (candidates : List (Member F × Signature)) (args : List Ty) :
    List (Member F × Signature × Bindings) :=
  candidates.filterMap fun (m, s) => (t.applicable s args).map fun b => (m, s, b)

end ClassTable

namespace MemberSource

variable {F O : Type}

/-- Looks for an applicable method from a class upwards; `start` is named when there is none. -/
def methodFrom (source : MemberSource F O) (table : ClassTable F) (start : O) (name : String)
    (isStatic : Bool) (args : List Ty) : Nat → O → Except TypeError (Resolution F O)
  | 0, owner => .error (.endlessBases (source.ownerName owner) {})
  | fuel + 1, owner =>
    match source.methods owner name isStatic with
    | .error e => .error e
    | .ok candidates =>
      match table.applicables candidates args with
      | [(member, signature, bindings)] => .ok (.found ⟨owner, member, signature, bindings⟩)
      | [] =>
        match source.base owner with
        | .error e => .error e
        | .ok (some base) => source.methodFrom table start name isStatic args fuel base
        | .ok none => .ok (.missing ⟨source.ownerName start, name, args⟩)
      | several =>
        .ok (.ambiguous ⟨source.ownerName owner, name, args, several.map fun (_, s, _) => s⟩)

/-- Chooses a method of a class or of its base classes. -/
def resolveMethod (source : MemberSource F O) (table : ClassTable F) (owner : O) (name : String)
    (isStatic : Bool) (args : List Ty) : Except TypeError (Resolution F O) :=
  source.methodFrom table owner name isStatic args (source.height owner) owner

/-- Chooses a constructor of a class. -/
def resolveConstructor (source : MemberSource F O) (table : ClassTable F) (owner : O)
    (args : List Ty) : Except TypeError (Resolution F O) :=
  match source.constructors owner with
  | .error e => .error e
  | .ok candidates =>
    if candidates.isEmpty && args.isEmpty then .ok .defaultConstructor
    else
      let name := source.ownerName owner
      match table.applicables candidates args with
      | [(member, signature, bindings)] => .ok (.found ⟨owner, member, signature, bindings⟩)
      | [] => .ok (.missing ⟨name, name, args⟩)
      | several => .ok (.ambiguous ⟨name, name, args, several.map fun (_, s, _) => s⟩)

end MemberSource

end Middleweight
