import Middleweight.Proofs.Engine.OpenCalls

/-!
# The scope around a call

A member runs in a scope of its own. So a call leaves the scope around it as it was, however it
ends: not only its variables but also its memory of classes.

* `Calls.scopeKept_atDepth` : calls at every depth
* `Engine.scopeKept_run`, `Engine.scopeKept_callStatic`, `Engine.scopeKept_constructObject` : hosts
-/

namespace Middleweight

variable {F α β : Type}

/-- The scope is the same before and after a computation, however it ends. -/
def EvalM.ScopeKept (x : EvalM F α) : Prop := ∀ m, (finalMachine (x m)).scope = m.scope

namespace EvalM.ScopeKept

theorem of_ok {x : EvalM F α} (h : ScopeKept x) {m m' : Machine F} {a : α} (hx : x m = .ok a m') :
    m'.scope = m.scope := by
  have hscope := h m
  rw [hx] at hscope
  exact hscope

theorem pure (a : α) : ScopeKept (Pure.pure a : EvalM F α) := fun _ => rfl

/-- A sequence keeps the scope, also where its first part stops. -/
theorem bind {x : EvalM F α} {f : α → EvalM F β} (hx : ScopeKept x) (hf : ∀ a, ScopeKept (f a)) :
    ScopeKept (x >>= f) := by
  intro m
  have h := hx m
  show (finalMachine (EStateM.bind x f m)).scope = m.scope
  unfold EStateM.bind
  generalize x m = r at h
  cases r with
  | ok a m₁ => exact (hf a m₁).trans h
  | error e m₁ => exact h

theorem map {x : EvalM F α} (hx : ScopeKept x) (f : α → β) : ScopeKept (do return f (← x)) :=
  hx.bind fun a => .pure (f a)

theorem exhausted : ScopeKept (EvalM.exhausted : EvalM F α) := fun _ => rfl

theorem raise (eng : Engine F) (fault : Fault F) (span : Span) :
    ScopeKept (eng.raise fault span : EvalM F α) :=
  fun _ => rfl

theorem types (eng : Engine F) (r : Except TypeError α) : ScopeKept (eng.types r) := by
  cases r with
  | ok a => exact .pure a
  | error e => exact .raise eng _ _

theorem read : ScopeKept (get : EvalM F (Machine F)) := fun _ => rfl

theorem change {f : Machine F → Machine F} (h : ∀ m, (f m).scope = m.scope) :
    ScopeKept (modify f : EvalM F PUnit) :=
  h

/-- Whatever a computation does to a scope of its own, the one around it stays. -/
theorem withScope (s : Scope F) (x : EvalM F α) : ScopeKept (EvalM.withScope s x) := by
  intro m
  unfold EvalM.withScope
  dsimp only
  cases x { m with scope := s } with
  | ok a m₁ => rfl
  | error e m₁ => rfl

/-- A frame does not touch the scope. -/
theorem withFrame {x : EvalM F α} (hx : ScopeKept x) (eng : Engine F) (frame : Frame) :
    ScopeKept (eng.withFrame frame x) := by
  have htell : ∀ event m, (eng.tell event m).scope = m.scope := by
    intro event m
    unfold Engine.tell
    split <;> rfl
  have hpop : ∀ m, (eng.popFrame m).scope = m.scope := by
    intro m
    unfold Engine.popFrame
    split
    · rfl
    · exact htell _ _
  intro m
  have h := hx (eng.pushFrame frame m)
  unfold Engine.withFrame
  generalize x (eng.pushFrame frame m) = r at h
  cases r with
  | ok a m₁ => exact (hpop m₁).trans (h.trans (htell _ m))
  | error e m₁ => exact (hpop m₁).trans (h.trans (htell _ m))

end EvalM.ScopeKept

namespace Engine

open EvalM

variable (eng : Engine F)

/-! ## Classes, objects and output -/

theorem scopeKept_register
    (make : Registry F → Except TypeError (RuntimeClass F × Registry F)) :
    ScopeKept (eng.register make) :=
  .bind .read fun _ => .bind (.types eng _) fun _ =>
    .bind (.change fun _ => rfl) fun _ => .pure _

/-- The fields of a new object are filled without a look at the scope. -/
theorem scopeKept_newFields (span : Span) (slots : List FieldSlot) :
    ∀ made : List (String × Variable F), ScopeKept (eng.newFields span slots made) := by
  induction slots with
  | nil => exact fun made => .pure _
  | cons slot rest ih =>
    intro made
    unfold newFields
    cases made.lookup slot.name with
    | some v => exact ih made
    | none => exact .bind (eng.scopeKept_register _) fun c => ih _

theorem scopeKept_allocate (c : RuntimeClass F) (span : Span) : ScopeKept (eng.allocate c span) :=
  .bind (eng.scopeKept_newFields span _ _) fun _ =>
    .bind .read fun _ => .bind (.change fun _ => rfl) fun _ => .pure _

theorem scopeKept_write (text : String) : ScopeKept (eng.write text) := by
  unfold write
  split
  · exact .pure _
  · exact .bind (.change fun _ => rfl) fun _ => .pure _

end Engine

/-! ## Members -/

/-- Calls that leave the scope around them as it was. -/
structure Calls.ScopeKept (calls : Calls F) : Prop where
  dispatch : ∀ c this name isStatic args argTypes span,
    EvalM.ScopeKept (calls.dispatch c this name isStatic args argTypes span)
  construct : ∀ c args argTypes span, EvalM.ScopeKept (calls.construct c args argTypes span)

namespace Engine

open EvalM

variable (eng : Engine F) {calls : Calls F} (hcalls : calls.ScopeKept)

include hcalls

/-- A native function has no scope of its own, and what it calls keeps that of its caller. -/
theorem scopeKept_runHost (span : Span) (p : HostProgram F α) :
    EvalM.ScopeKept (eng.runHost calls span p) := by
  induction p with
  | done a => exact .pure a
  | fail fault =>
    cases fault with
    | message text => exact .raise eng _ _
    | nullDereference member => exact .raise eng _ _
  | write text next ih =>
    refine .bind (eng.scopeKept_write text) fun e => ?_
    cases e with
    | none => exact ih
    | some e => exact .raise eng _ _
  | classOf ty next ih => exact .bind (eng.scopeKept_register _) ih
  | allocate c next ih => exact .bind (eng.scopeKept_allocate c span) ih
  | construct c args next ih => exact .bind (hcalls.construct c args _ span) ih
  | getState o next ih => exact .bind (.map .read _) fun i => ih _
  | setState o state next ih => exact .bind (.change fun _ => rfl) fun _ => ih
  | depth next ih => exact .bind (.map .read _) ih

variable [HostFunctions F]

/-- A method that is found runs in a scope of its own. -/
theorem scopeKept_dispatch (c : RuntimeClass F) (this : Value F) (name : String) (isStatic : Bool)
    (args : List (Variable F)) (argTypes : List Ty) (span : Span) :
    EvalM.ScopeKept (eng.dispatch calls c this name isStatic args argTypes span) := by
  have hvalue : ∀ s b, EvalM.ScopeKept (eng.methodValue calls s b this args span) := by
    intro s b
    unfold methodValue
    split
    · exact .map (eng.scopeKept_runHost hcalls _ _) _
    · exact .withScope _ _
  refine .bind (.types eng _) fun r => ?_
  split
  · refine .withFrame (.bind (hvalue _ _) fun result => ?_) eng _
    split
    · exact .map (eng.scopeKept_register _) _
    · exact .pure _
  · exact .raise eng _ _
  · exact .raise eng _ _
  · exact .pure _

/-- So do the constructors of all levels. -/
theorem scopeKept_runConstructors (o : ObjectRef F) (isStaticView : Bool)
    (layers : List (Layer F)) : ∀ (args : List (Variable F)) (argTypes : List Ty) (span : Span),
    EvalM.ScopeKept (eng.runConstructors calls o isStaticView layers args argTypes span) := by
  induction layers with
  | nil => exact fun args argTypes span => .pure _
  | cons layer rest ih =>
    intro args argTypes span
    refine .bind (.types eng _) fun r => ?_
    split
    · refine .withFrame ?_ eng _
      split
      · exact .bind (eng.scopeKept_runHost hcalls _ _) fun _ => .pure _
      · exact .withScope _ _
    · exact ih _ _ _
    · exact .raise eng _ _
    · exact .raise eng _ _

theorem scopeKept_construct (c : RuntimeClass F) (args : List (Variable F)) (argTypes : List Ty)
    (span : Span) : EvalM.ScopeKept (eng.construct calls c args argTypes span) :=
  .bind (eng.scopeKept_allocate c span) fun _ =>
    .bind (eng.scopeKept_runConstructors hcalls _ _ _ _ _ _) fun _ => .pure _

end Engine

/-- Calls leave the scope around them as it was, at every depth. -/
theorem Calls.scopeKept_atDepth [HostFunctions F] (eng : Engine F) (n : Nat) :
    (Calls.atDepth eng n).ScopeKept := by
  induction n with
  | zero => exact ⟨fun _ _ _ _ _ _ _ => .exhausted, fun _ _ _ _ => .exhausted⟩
  | succ n ih =>
    exact ⟨fun _ _ _ _ _ _ _ => eng.scopeKept_dispatch ih _ _ _ _ _ _ _,
      fun _ _ _ _ => eng.scopeKept_construct ih _ _ _ _⟩

/-! ## Hosts -/

namespace Engine

open EvalM

variable [HostFunctions F] (eng : Engine F)

theorem scopeKept_callStatic (className method : String) (args : List (Variable F)) (span : Span) :
    ScopeKept (eng.callStatic className method args span) := by
  unfold callStatic
  split
  · exact .raise eng _ _
  · exact .bind (eng.scopeKept_register _) fun _ =>
      (Calls.scopeKept_atDepth eng eng.budget).dispatch _ _ _ _ _ _ _

theorem scopeKept_constructObject (c : RuntimeClass F) (args : List (Variable F)) (span : Span) :
    ScopeKept (eng.constructObject c args span) :=
  (Calls.scopeKept_atDepth eng eng.budget).construct _ _ _ _

/-- A run ends in the scope in which it began. -/
theorem scopeKept_run : ScopeKept eng.run := by
  refine .withFrame ?_ eng _
  split
  · exact .raise eng _ _
  · refine .bind (eng.scopeKept_callStatic _ _ _ _) fun _ => ?_
    unfold flush
    split
    · exact .raise eng _ _
    · exact .pure _

end Engine

end Middleweight
