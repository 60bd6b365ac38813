import Middleweight.Engine.Eval

/-!
# Parts of evaluation

Names for what remains of a longer computation when its first part is done: looking a name up once
the scope is known, storing to it, reading a static field once it is known whether it was read
before.

* `EvalM.ok_of_bind`, `EvalM.ok_of_nested` : the parts of a computation that ended well
* `Engine.lookup_eq`, `Engine.store_eq` : bare names
* `Engine.staticField_eq`, `Engine.storeField_object` : fields
-/

namespace Middleweight

variable {F : Type}

namespace EvalM

/-- The parts of a computation that ended well. -/
theorem ok_of_bind {α β : Type} {x : EvalM F α} {f : α → EvalM F β} {m m' : Machine F} {b : β}
    (h : (x >>= f) m = .ok b m') : ∃ a m₁, x m = .ok a m₁ ∧ f a m₁ = .ok b m' := by
  change EStateM.bind x f m = .ok b m' at h
  unfold EStateM.bind at h
  split at h
  · next a m₁ hx => exact ⟨a, m₁, hx, h⟩
  · cases h

/-- A computation at a level of its own that ended well. -/
theorem ok_of_nested {α : Type} {x : EvalM F α} {m m' : Machine F} {a : α}
    (h : nested x m = .ok a m') :
    ∃ m₁, x { m with scope := m.scope.push } = .ok a m₁ ∧
      m' = { m₁ with scope := m₁.scope.pop } := by
  unfold nested at h
  split at h
  · next m₁ hx =>
    cases h
    exact ⟨m₁, hx, rfl⟩
  · cases h

/-- The field of a name of the running instance, if there is one. -/
def ownField? (context : Context F) (name : String) : EvalM F (Option (Variable F)) :=
  match context.instance? with
  | some o => field? o name
  | none => pure none

/-- Gives a field of the running instance another value; tells whether there is such a field. -/
def setOwnField (context : Context F) (name : String) (value : Value F) : EvalM F Bool :=
  match context.instance? with
  | some o => setField o name value
  | none => pure false

end EvalM

namespace Engine

variable (eng : Engine F)

/-! ## Bare names -/

/-- What a bare name stands for that is neither a variable nor a field. -/
def lookupClass (name : Identifier) : EvalM F (Variable F) := do
  match ← eng.staticClass name.name name.span with
  | some c => return ⟨c, .cls c⟩
  | none =>
    match eng.table.natives.namespace? name.name with
    | some _ => eng.typedValue (.namespace name.name) name.span
    | none => eng.raise (.undefinedVariable name.name) name.span

/--
What a bare name stands for that is no variable, given the field of that name if there is one.
-/
def lookupField (name : Identifier) : Option (Variable F) → EvalM F (Variable F)
  | some v => pure v
  | none => eng.lookupClass name

/-- What a bare name stands for in a scope. -/
def lookupIn (name : Identifier) (scope : Scope F) : EvalM F (Variable F) :=
  if name.name = "this" then
    match scope.context.this? with
    | some v => pure v
    | none => eng.raise (.undefinedVariable name.name) name.span
  else
    match scope.lookup name.name with
    | some v => pure v
    | none => EvalM.ownField? scope.context name.name >>= eng.lookupField name

theorem lookup_eq (name : Identifier) : eng.lookup name = EvalM.scope >>= eng.lookupIn name := by
  unfold lookup
  congr 1
  funext scope
  unfold lookupIn EvalM.ownField?
  split
  · rfl
  · cases scope.lookup name.name with
    | some v => rfl
    | none =>
      cases scope.context.instance? with
      | none => rfl
      | some o => rfl

/-- Ends a store, given whether it found something to store to. -/
def storedOr (target : Identifier) (stored : Bool) : EvalM F Unit :=
  if stored then pure () else eng.raise (.undefinedVariable target.name) target.span

/-- Gives a bare name another value in a scope. -/
def storeIn (target : Identifier) (value : Value F) (scope : Scope F) : EvalM F Unit :=
  match scope.assign target.name value with
  | some s => EvalM.modifyScope fun _ => s
  | none => EvalM.setOwnField scope.context target.name value >>= eng.storedOr target

theorem store_eq (target : Identifier) (value : Value F) :
    eng.store target value =
      if target.name = "this" then eng.invalid .assignmentToThis target.span
      else EvalM.scope >>= eng.storeIn target value := by
  unfold store
  split
  · rfl
  · congr 1
    funext scope
    unfold storeIn EvalM.setOwnField
    cases scope.assign target.name value with
    | some s => rfl
    | none =>
      cases scope.context.instance? with
      | none => rfl
      | some o => rfl

/-! ## Fields -/

/-- The value of a field of an object, which has to be there. -/
def fieldNow (o : ObjectRef F) (field : Identifier) : EvalM F (Value F) := do
  match ← EvalM.field? o field.name with
  | some v => return v.value
  | none => eng.undefinedField (.object o) field

/-- Gives a field of an object another value; it has to be there. -/
def putField (o : ObjectRef F) (field : Identifier) (value : Value F) : EvalM F Unit := do
  if ← EvalM.setField o field.name value then return ()
  else eng.undefinedField (.object o) field

theorem storeField_object (o : ObjectRef F) (field : Identifier) (op : AssignOp) (value : Value F)
    (span : Span) :
    eng.storeField (.object o) field op value span =
      eng.combine op (eng.fieldNow o field) value span >>= eng.putField o field :=
  rfl

variable [HostFunctions F] (calls : Calls F)

/-- Makes the variable of a static field. -/
def initStatic (owner : RuntimeClass F) (field : NativeField F) (span : Span) :
    EvalM F (Variable F) := do
  let ty ← eng.types (eng.table.lower [] field.ty)
  let cls ← eng.classOf ty span
  let value ← eng.callHost calls field.init ⟨owner, .null, [], span⟩
  let v : Variable F := ⟨cls, value⟩
  modify fun m => { m with statics := ((owner.name, field.name), v) :: m.statics }
  return v

/-- The variable of a static field, given the one that was made before if there is one. -/
def staticOr (owner : RuntimeClass F) (field : NativeField F) (span : Span) :
    Option (Variable F) → EvalM F (Variable F)
  | some v => pure v
  | none => eng.initStatic calls owner field span

theorem staticField_eq {c owner : RuntimeClass F} {name : String} {field : NativeField F}
    (h : staticFieldOwner? c name c.layers = some (owner, field)) (span : Span) :
    eng.staticField calls c name span = get >>= fun m =>
      eng.staticOr calls owner field span (m.statics.lookup (owner.name, field.name)) := by
  unfold staticField
  rw [h]
  rfl

theorem staticField_of_none {c : RuntimeClass F} {name : String}
    (h : staticFieldOwner? c name c.layers = none) (span : Span) :
    eng.staticField calls c name span =
      eng.raise (.undefinedVariable (c.name ++ "." ++ name)) span := by
  unfold staticField
  rw [h]

end Engine

end Middleweight
