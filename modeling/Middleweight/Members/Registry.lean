import Middleweight.Members.RuntimeClass

/-!
# The registry of runtime classes

Each type is instantiated once, and each class has at most one static view. Both are made together
with their base classes, base first. A call that fails changes nothing.

Instantiation follows the chain of base classes, which the number of classes bounds unless it leads
back to itself; native classes can do that, and then the walk is given up with `endlessBases`.
-/

namespace Middleweight

/-- The classes made so far: instantiations by type, static views by name. -/
structure Registry (F : Type) where
  instances : List (ClassTy × RuntimeClass F) := []
  staticViews : List (String × RuntimeClass F) := []

namespace Registry

variable {F : Type}

instance : Inhabited (Registry F) := ⟨{}⟩

/-- The number of instantiations made so far. -/
def size (r : Registry F) : Nat := r.instances.length

def instance? (r : Registry F) (ty : ClassTy) : Option (RuntimeClass F) :=
  (r.instances.find? fun e => e.1 == ty).map Prod.snd

def staticView? (r : Registry F) (name : String) : Option (RuntimeClass F) :=
  r.staticViews.lookup name

/-- Instantiates a type whose arguments are resolved and concrete. -/
def instantiateWithin (table : ClassTable F) : Nat → Registry F → ClassTy → Span →
    Except TypeError (RuntimeClass F × Registry F)
  | 0, _, key, span => .error (.endlessBases key.name span)
  | fuel + 1, r, key, span =>
    match r.instance? key with
    | some c => .ok (c, r)
    | none =>
      match table.template key.name span with
      | .error e => .error e
      | .ok t =>
        if t.generics.length ≠ key.args.length then
          .error (.genericArity key.name t.generics.length key.args.length span)
        else
          match t.base with
          | none =>
            let c := RuntimeClass.ofTemplate t key none
            .ok (c, { r with instances := (key, c) :: r.instances })
          | some base =>
            let args := Ty.resolvedAll (base.substitute (Bindings.zip t.generics key.args)).args
            match Ty.firstUnboundIn? args with
            | some name => .error (.unboundGeneric name span)
            | none =>
              match instantiateWithin table fuel r ⟨base.name, args⟩ span with
              | .error e => .error e
              | .ok (b, r) =>
                let c := RuntimeClass.ofTemplate t key (some b)
                .ok (c, { r with instances := (key, c) :: r.instances })

/-- The instantiation of a class type. -/
def «instantiate» (table : ClassTable F) (r : Registry F) (ty : ClassTy) (span : Span) :
    Except TypeError (RuntimeClass F × Registry F) :=
  let args := Ty.resolvedAll ty.args
  match Ty.firstUnboundIn? args with
  | some name => .error (.unboundGeneric name span)
  | none => instantiateWithin table table.height r ⟨ty.name, args⟩ span

/-- The runtime class of a type. -/
def classOf (table : ClassTable F) (r : Registry F) (ty : Ty) (span : Span) :
    Except TypeError (RuntimeClass F × Registry F) :=
  match ty.resolved with
  | .cls name args => r.instantiate table ⟨name, args⟩ span
  | .unbound name | .bound name _ => .error (.unboundGeneric name span)

def staticViewWithin (table : ClassTable F) : Nat → Registry F → String → Span →
    Except TypeError (RuntimeClass F × Registry F)
  | 0, _, name, span => .error (.endlessBases name span)
  | fuel + 1, r, name, span =>
    match r.staticView? name with
    | some c => .ok (c, r)
    | none =>
      match table.template name span with
      | .error e => .error e
      | .ok t =>
        match t.base with
        | none =>
          let c := RuntimeClass.staticOfTemplate t none
          .ok (c, { r with staticViews := (name, c) :: r.staticViews })
        | some base =>
          match staticViewWithin table fuel r base.name span with
          | .error e => .error e
          | .ok (b, r) =>
            let c := RuntimeClass.staticOfTemplate t (some b)
            .ok (c, { r with staticViews := (name, c) :: r.staticViews })

/-- The static view of a class. -/
def staticView (table : ClassTable F) (r : Registry F) (name : String) (span : Span) :
    Except TypeError (RuntimeClass F × Registry F) :=
  staticViewWithin table table.height r name span

end Registry

end Middleweight
