import Middleweight.Proofs.Engine.Memo
import Middleweight.Proofs.Engine.OpenCalls
import Middleweight.Proofs.Syntax.Procedural

/-!
# Levels that make no difference

Two machines are alike when they have the same objects, static fields, open calls and output, and the
same variables, except that on the right there are more levels, with nothing declared at them. What
the machines remember of classes need not be the same, only valid. Such machines cannot be told apart
from inside: the same computation ends alike on both, and leaves them alike, as long as nothing is
declared at one of the levels that only one of them has.

A shape says which levels these are, from the inside out.

* `EvalM.Alike.nested_right` : a level on the right only
* `Engine.blind_eval`, `Engine.blind_exec` : expressions and statements
* `Calls.blind_atDepth` : calls, by induction on the depth
-/

namespace Middleweight

variable {F α β γ : Type} {t : ClassTable F} {shape : List Bool}

/-! ## Levels -/

/-- Levels that are on both sides, where the shape says so, and levels that are on the right only. -/
inductive LevelsAlike (t : ClassTable F) : List Bool → List (Level F) → List (Level F) → Prop
  | nil : LevelsAlike t [] [] []
  | both {shape : List Bool} {l l' : Level F} {ls ls' : List (Level F)} :
      l'.locals = l.locals → l'.generics = l.generics → l.cache.Valid t → l'.cache.Valid t →
      LevelsAlike t shape ls ls' → LevelsAlike t (true :: shape) (l :: ls) (l' :: ls')
  | extra {shape : List Bool} {l' : Level F} {ls ls' : List (Level F)} :
      l'.locals = [] → l'.generics = [] → l'.cache.Valid t →
      LevelsAlike t shape ls ls' → LevelsAlike t (false :: shape) ls (l' :: ls')

namespace LevelsAlike

variable {ls ls' : List (Level F)}

/-- Levels beside themselves. -/
theorem refl : ∀ {ls : List (Level F)}, (∀ l ∈ ls, l.cache.Valid t) →
    LevelsAlike t (ls.map fun _ => true) ls ls
  | [], _ => .nil
  | l :: ls, h => .both rfl rfl (h l (by simp)) (h l (by simp)) (refl fun k hk => h k (by simp [hk]))

/-- What the levels on the left remember is valid. -/
theorem valid_left (h : LevelsAlike t shape ls ls') : ∀ l ∈ ls, l.cache.Valid t := by
  induction h with
  | nil => exact fun _ hl => nomatch hl
  | both _ _ hk _ _ ih => exact List.forall_mem_cons.mpr ⟨hk, ih⟩
  | extra _ _ _ _ ih => exact ih

/-- So it is on the right. -/
theorem valid_right (h : LevelsAlike t shape ls ls') : ∀ l ∈ ls', l.cache.Valid t := by
  induction h with
  | nil => exact fun _ hl => nomatch hl
  | both _ _ _ hk _ ih => exact List.forall_mem_cons.mpr ⟨hk, ih⟩
  | extra _ _ hk _ ih => exact List.forall_mem_cons.mpr ⟨hk, ih⟩

/-- Both sides see the same parameters, since the extra levels have none. -/
theorem generics_eq (h : LevelsAlike t shape ls ls') :
    ls'.flatMap Level.generics = ls.flatMap Level.generics := by
  induction h with
  | nil => rfl
  | both _ hg _ _ _ ih => rw [List.flatMap_cons, List.flatMap_cons, hg, ih]
  | extra _ hg _ _ ih => rw [List.flatMap_cons, hg, ih, List.nil_append]

/-- Both sides find the same variables, since the extra levels have none. -/
theorem lookupIn_eq (h : LevelsAlike t shape ls ls') (name : String) :
    Scope.lookupIn name ls' = Scope.lookupIn name ls := by
  induction h with
  | nil => rfl
  | both hl _ _ _ _ ih => rw [Scope.lookupIn, Scope.lookupIn, hl, ih]
  | extra hl _ _ _ ih =>
    rw [Scope.lookupIn, hl]
    exact ih

/-- An assignment finds the same variable on both sides. -/
theorem assignIn (h : LevelsAlike t shape ls ls') (name : String) (value : Value F) :
    Option.Rel (LevelsAlike t shape) (Scope.assignIn name value ls)
      (Scope.assignIn name value ls') := by
  induction h with
  | nil => exact .none
  | @both _ l l' _ _ hl hg hk hk' hrest ih =>
    rw [Scope.assignIn, Scope.assignIn, hl]
    cases l.locals.lookup name with
    | some v => exact .some (.both rfl hg hk hk' hrest)
    | none =>
      dsimp only
      generalize Scope.assignIn name value _ = r at ih
      generalize Scope.assignIn name value _ = r' at ih
      cases ih with
      | none => exact .none
      | some ih => exact .some (.both hl hg hk hk' ih)
  | extra hl hg hk _ ih =>
    rw [Scope.assignIn, hl]
    show Option.Rel _ _ (Option.map _ _)
    generalize Scope.assignIn name value _ = r at ih
    generalize Scope.assignIn name value _ = r' at ih
    cases ih with
    | none => exact .none
    | some ih => exact .some (.extra hl hg hk ih)

/-- Where the shape has a level on both sides there are levels. -/
theorem ne_nil (h : LevelsAlike t shape ls ls') (hshape : true ∈ shape) : ls ≠ [] ∧ ls' ≠ [] := by
  induction h with
  | nil => cases hshape
  | both => exact ⟨List.cons_ne_nil _ _, List.cons_ne_nil _ _⟩
  | extra _ _ _ _ ih =>
    exact ⟨(ih ((List.mem_cons.mp hshape).resolve_left (by decide))).1, List.cons_ne_nil _ _⟩

/-- A level on the left is on both sides. -/
theorem mem_of_cons {l : Level F} (h : LevelsAlike t shape (l :: ls) ls') : true ∈ shape := by
  generalize hls : l :: ls = left at h
  induction h with
  | nil => cases hls
  | both => exact List.mem_cons_self
  | extra _ _ _ _ ih => exact List.mem_cons_of_mem _ (ih hls)

/-- The caches of the current levels may be exchanged for valid ones. -/
theorem cache_left {l : Level F} {k : ResolutionCache (RuntimeClass F)} (hk : k.Valid t) :
    ∀ {shape : List Bool} {ls ls' : List (Level F)}, LevelsAlike t shape (l :: ls) ls' →
      LevelsAlike t shape ({ l with cache := k } :: ls) ls'
  | _, _, _, .both hl hg _ hk' h => .both hl hg hk hk' h
  | _, _, _, .extra hl hg hk' h => .extra hl hg hk' (cache_left hk h)

/-- The same on the right. -/
theorem cache_right {l : Level F} {k : ResolutionCache (RuntimeClass F)} (hk : k.Valid t) :
    ∀ {shape : List Bool} {ls ls' : List (Level F)}, LevelsAlike t shape ls (l :: ls') →
      LevelsAlike t shape ls ({ l with cache := k } :: ls')
  | _, _, _, .both hl hg hk' _ h => .both hl hg hk' hk h
  | _, _, _, .extra hl hg _ h => .extra hl hg hk h

end LevelsAlike

namespace Scope

variable {s : Scope F}

theorem assignIn_ne_nil {name : String} {value : Value F} {ls ls' : List (Level F)}
    (h : assignIn name value ls = some ls') : ls' ≠ [] := by
  cases ls with
  | nil => cases h
  | cons l ls =>
    rw [assignIn] at h
    split at h
    · cases h
      exact List.cons_ne_nil _ _
    · obtain ⟨rest, -, rfl⟩ := Option.map_eq_some_iff.mp h
      exact List.cons_ne_nil _ _

theorem context_pop (s : Scope F) : s.pop.context = s.context := by
  unfold pop
  split <;> rfl

theorem levels_pop (h : s.outer ≠ []) : s.pop.levels = s.outer := by
  obtain ⟨context, current, outer⟩ := s
  cases outer with
  | nil => exact absurd rfl h
  | cons l rest => rfl

end Scope

/-- Two scopes of the same context with the same variables. -/
structure Scope.Alike (t : ClassTable F) (shape : List Bool) (s s' : Scope F) : Prop where
  context : s'.context = s.context
  levels : LevelsAlike t shape s.levels s'.levels

namespace Scope.Alike

variable {s s' : Scope F}

/-- Both scopes see the same parameters. -/
theorem typeParams_eq (h : s.Alike t shape s') : s'.typeParams = s.typeParams := by
  rw [typeParams, typeParams, h.levels.generics_eq, h.context]

/-- Both scopes find the same variables. -/
theorem lookup_eq (h : s.Alike t shape s') (name : String) : s'.lookup name = s.lookup name :=
  h.levels.lookupIn_eq name

theorem push (h : s.Alike t shape s') : s.push.Alike t (true :: shape) s'.push :=
  ⟨h.context, .both rfl rfl .empty .empty h.levels⟩

/-- A level may be added on the right only. -/
theorem push_right (h : s.Alike t shape s') : s.Alike t (false :: shape) s'.push :=
  ⟨h.context, .extra rfl rfl .empty h.levels⟩

/-- A local is declared on both sides, where the innermost level is on both. -/
theorem define (h : s.Alike t (true :: shape) s') (name : String) (v : Variable F) :
    (s.define name v).Alike t (true :: shape) (s'.define name v) := by
  obtain ⟨hcontext, hlevels⟩ := h
  refine ⟨hcontext, ?_⟩
  cases hlevels with
  | both hl hg hk hk' hrest =>
    refine .both ?_ hg hk hk' hrest
    show (name, v) :: _ = (name, v) :: _
    rw [hl]

/-- An assignment finds its variable on both sides or on neither. -/
theorem assign (h : s.Alike t shape s') (name : String) (value : Value F) :
    Option.Rel (Scope.Alike t shape) (s.assign name value) (s'.assign name value) := by
  have hrel := h.levels.assignIn name value
  unfold Scope.assign
  generalize hr : Scope.assignIn name value s.levels = r at hrel
  generalize hr' : Scope.assignIn name value s'.levels = r' at hrel
  cases hrel with
  | none => exact .none
  | @some ls ls' hls =>
    obtain ⟨l, ls, rfl⟩ := List.exists_cons_of_ne_nil (assignIn_ne_nil hr)
    obtain ⟨l', ls', rfl⟩ := List.exists_cons_of_ne_nil (assignIn_ne_nil hr')
    exact .some ⟨h.context, hls⟩

/-- Closing a level that is on both sides, which is not the outermost one. -/
theorem pop (h : s.Alike t (true :: shape) s') (hshape : true ∈ shape) :
    s.pop.Alike t shape s'.pop := by
  obtain ⟨hcontext, hlevels⟩ := h
  cases hlevels with
  | both _ _ _ _ hrest =>
    obtain ⟨hls, hls'⟩ := hrest.ne_nil hshape
    exact ⟨by rw [context_pop, context_pop, hcontext], by rwa [levels_pop hls, levels_pop hls']⟩

/-- Closing a level that is on the right only. -/
theorem pop_right (h : s.Alike t (false :: shape) s') : s.Alike t shape s'.pop := by
  obtain ⟨hcontext, hlevels⟩ := h
  generalize hs : s.levels = ls at hlevels
  cases hlevels with
  | extra _ _ _ hrest =>
    subst hs
    obtain ⟨-, hls'⟩ := hrest.ne_nil (hrest.mem_of_cons)
    exact ⟨by rw [context_pop, hcontext], by rwa [levels_pop hls']⟩

end Scope.Alike

/-! ## Machines -/

/-- Two machines that cannot be told apart from inside. -/
structure Machine.Alike (t : ClassTable F) (shape : List Bool) (m m' : Machine F) : Prop where
  registryLeft : m.registry.Valid t
  registryRight : m'.registry.Valid t
  heap : m'.heap = m.heap
  statics : m'.statics = m.statics
  stack : m'.stack = m.stack
  output : m'.output = m.output
  scope : m.scope.Alike t shape m'.scope

namespace Machine

/-- A machine is like itself. -/
theorem Remembers.alike {m : Machine F} (h : m.Remembers t) :
    m.Alike t (m.scope.levels.map fun _ => true) m :=
  ⟨h.registry, h.registry, rfl, rfl, rfl, rfl, rfl, .refl h.caches⟩

namespace Alike

variable {m m' : Machine F} (h : m.Alike t shape m')

include h

theorem remembers_left : m.Remembers t := ⟨h.registryLeft, h.scope.levels.valid_left⟩

theorem remembers_right : m'.Remembers t := ⟨h.registryRight, h.scope.levels.valid_right⟩

/-- Each side may remember other classes, if these are valid. -/
theorem withMemory {r r' : Registry F} {k k' : ResolutionCache (RuntimeClass F)} (hr : r.Valid t)
    (hr' : r'.Valid t) (hk : k.Valid t) (hk' : k'.Valid t) :
    (m.withMemory r k).Alike t shape (m'.withMemory r' k') :=
  ⟨hr, hr', h.heap, h.statics, h.stack, h.output, h.scope.context,
    (h.scope.levels.cache_left hk).cache_right hk'⟩

theorem withScope {shape' : List Bool} {s s' : Scope F} (hs : s.Alike t shape' s') :
    Alike t shape' { m with scope := s } { m' with scope := s' } :=
  ⟨h.registryLeft, h.registryRight, h.heap, h.statics, h.stack, h.output, hs⟩

theorem withHeap {heap heap' : Array (Instance F)} (hheap : heap' = heap) :
    Alike t shape { m with heap } { m' with heap := heap' } :=
  ⟨h.registryLeft, h.registryRight, hheap, h.statics, h.stack, h.output, h.scope⟩

/-- What an observer is told makes no difference. -/
theorem tell (eng : Engine F) (event event' : Event) :
    Alike t shape (eng.tell event m) (eng.tell event' m') := by
  unfold Engine.tell
  split
  · exact ⟨h.registryLeft, h.registryRight, h.heap, h.statics, h.stack, h.output, h.scope⟩
  · exact h

theorem told_right (eng : Engine F) (event : Event) : Alike t shape m (eng.tell event m') := by
  unfold Engine.tell
  split
  · exact ⟨h.registryLeft, h.registryRight, h.heap, h.statics, h.stack, h.output, h.scope⟩
  · exact h

theorem withStack {stack stack' : List Frame} (hstack : stack' = stack) :
    Alike t shape { m with stack } { m' with stack := stack' } :=
  ⟨h.registryLeft, h.registryRight, h.heap, h.statics, hstack, h.output, h.scope⟩

theorem pushFrame (eng : Engine F) (frame : Frame) :
    Alike t shape (eng.pushFrame frame m) (eng.pushFrame frame m') := by
  have htold := h.tell eng (.enter frame) (.enter frame)
  exact htold.withStack (congrArg (frame :: ·) htold.stack)

theorem popFrame (eng : Engine F) : Alike t shape (eng.popFrame m) (eng.popFrame m') := by
  unfold Engine.popFrame
  rw [h.stack]
  split
  · exact h
  · exact (h.withStack rfl).tell eng _ _

end Alike

end Machine

/-! ## Computations -/

/-- Two computations end alike: with the same result or for the same reason, and machines alike. -/
inductive EvalM.EndsAlike (t : ClassTable F) (shape : List Bool) :
    EStateM.Result (Stop F) (Machine F) α → EStateM.Result (Stop F) (Machine F) α → Prop
  | ok {a : α} {m m' : Machine F} : m.Alike t shape m' → EndsAlike t shape (.ok a m) (.ok a m')
  | error {e : Stop F} {m m' : Machine F} : m.Alike t shape m' →
      EndsAlike t shape (.error e m) (.error e m')

/-- Two computations that end alike from machines that are alike. -/
def EvalM.Alike (t : ClassTable F) (shape : List Bool) (x y : EvalM F α) : Prop :=
  ∀ ⦃m m' : Machine F⦄, m.Alike t shape m' → EvalM.EndsAlike t shape (x m) (y m')

namespace EvalM.Alike

theorem pure (a : α) : Alike t shape (Pure.pure a : EvalM F α) (Pure.pure a) := fun _ _ h => .ok h

/-- What follows has to end alike for the results that there can be. -/
theorem bind_of {x y : EvalM F α} {f k : α → EvalM F β} (hx : Alike t shape x y)
    (hf : ∀ a, (∃ m m₁, x m = .ok a m₁) → Alike t shape (f a) (k a)) :
    Alike t shape (x >>= f) (y >>= k) := by
  intro m m' h
  have hends := hx h
  show EndsAlike t shape (EStateM.bind x f m) (EStateM.bind y k m')
  unfold EStateM.bind
  generalize hr : x m = r at hends
  generalize y m' = r' at hends
  cases hends with
  | ok h₁ => exact hf _ ⟨m, _, hr⟩ h₁
  | error h₁ => exact .error h₁

/-- Computations that end alike one after the other do so together. -/
theorem bind {x y : EvalM F α} {f k : α → EvalM F β} (hx : Alike t shape x y)
    (hf : ∀ a, Alike t shape (f a) (k a)) : Alike t shape (x >>= f) (y >>= k) :=
  hx.bind_of fun a _ => hf a

theorem map {x y : EvalM F α} (hx : Alike t shape x y) (f : α → β) :
    Alike t shape (do return f (← x)) (do return f (← y)) :=
  hx.bind fun a => .pure (f a)

theorem exhausted : Alike t shape (EvalM.exhausted : EvalM F α) EvalM.exhausted :=
  fun _ _ h => .error h

theorem raise (eng : Engine F) (fault : Fault F) (span : Span) :
    Alike t shape (eng.raise fault span : EvalM F α) (eng.raise fault span) := by
  intro m m' h
  unfold Engine.raise
  rw [h.stack]
  exact .error h

theorem types (eng : Engine F) (x : Except TypeError α) :
    Alike t shape (eng.types x) (eng.types x) := by
  cases x with
  | ok a => exact .pure a
  | error e => exact .raise eng _ _

theorem operators (eng : Engine F) (span : Span) (x : Except (OperatorError F) α) :
    Alike t shape (eng.operators span x) (eng.operators span x) := by
  cases x with
  | ok a => exact .pure a
  | error e => exact .raise eng _ _

/-- What is read of the machine is the same on both sides. -/
theorem reads {f : Machine F → α} (hf : ∀ {m m'}, m.Alike t shape m' → f m' = f m) :
    Alike t shape (do return f (← get)) (do return f (← get)) := by
  intro m m' h
  show EndsAlike t shape (.ok (f m) m) (.ok (f m') m')
  rw [hf h]
  exact .ok h

theorem changes {f k : Machine F → Machine F}
    (hf : ∀ {m m'}, m.Alike t shape m' → (f m).Alike t shape (k m')) :
    Alike t shape (modify f : EvalM F PUnit) (modify k) := fun _ _ h => .ok (hf h)

/-- A computation may look at the scope, where that is all the same. -/
theorem scope_bind {f k : Scope F → EvalM F α}
    (hf : ∀ {s s'}, s.Alike t shape s' → Alike t shape (f s) (k s')) :
    Alike t shape (EvalM.scope >>= f) (EvalM.scope >>= k) := fun _ _ h => hf h.scope h

/-- The same frame is put on both stacks, and taken off again. -/
theorem withFrame {x y : EvalM F α} (hx : Alike t shape x y) (eng : Engine F) (frame : Frame) :
    Alike t shape (eng.withFrame frame x) (eng.withFrame frame y) := by
  intro m m' h
  have hends := hx (h.pushFrame eng frame)
  unfold Engine.withFrame
  generalize x (eng.pushFrame frame m) = r at hends
  generalize y (eng.pushFrame frame m') = r' at hends
  cases hends with
  | ok h₁ => exact .ok (h₁.popFrame eng)
  | error h₁ => exact .error (h₁.popFrame eng)

/-- The scope of an invocation has one level, on both sides. -/
theorem withScope {x y : EvalM F α} (hx : Alike t [true] x y) (context : Context F)
    (generics : TypeParams) :
    Alike t shape (EvalM.withScope (.invocation context generics) x)
      (EvalM.withScope (.invocation context generics) y) := by
  intro m m' h
  have hscope : (Scope.invocation context generics).Alike t [true]
      (.invocation context generics) := ⟨rfl, .both rfl rfl .empty .empty .nil⟩
  have hends := hx (h.withScope hscope)
  unfold EvalM.withScope
  dsimp only
  generalize x _ = r at hends
  generalize y _ = r' at hends
  cases hends with
  | ok h₁ => exact .ok (h₁.withScope h.scope)
  | error h₁ => exact .error (h₁.withScope h.scope)

/-- A level of their own, on both sides. -/
theorem nested {x y : EvalM F α} (hx : Alike t (true :: shape) x y) :
    Alike t shape (EvalM.nested x) (EvalM.nested y) := by
  intro m m' h
  have hends := hx (h.withScope h.scope.push)
  have hshape : true ∈ shape := h.scope.levels.mem_of_cons
  unfold EvalM.nested
  generalize x _ = r at hends
  generalize y _ = r' at hends
  cases hends with
  | ok h₁ => exact .ok (h₁.withScope (h₁.scope.pop hshape))
  | error h₁ => exact .error (h₁.withScope (h₁.scope.pop hshape))

/-- A level of its own on the right only. -/
theorem nested_right {x y : EvalM F α} (hx : Alike t (false :: shape) x y) :
    Alike t shape x (EvalM.nested y) := by
  intro m m' h
  have hends := hx (h.withScope h.scope.push_right)
  unfold EvalM.nested
  change EndsAlike t (false :: shape) (x m) _ at hends
  generalize x m = r at hends ⊢
  generalize y _ = r' at hends
  cases hends with
  | ok h₁ => exact .ok (h₁.withScope h₁.scope.pop_right)
  | error h₁ => exact .error (h₁.withScope h₁.scope.pop_right)

end EvalM.Alike

/-- A computation that ends alike on machines that are alike. -/
abbrev Engine.Blind (eng : Engine F) (shape : List Bool) (x : EvalM F α) : Prop :=
  EvalM.Alike eng.table shape x x

namespace Engine

open EvalM.Alike

variable {eng : Engine F}

/-! ## Classes and the heap -/

/-- What leaves its answer to the table and changes nothing but memories. -/
theorem Blind.of_memory {x : EvalM F α} (answer : TypeParams → Except TypeError α)
    (hx : ∀ {m : Machine F}, m.Remembers eng.table → ∃ r k, r.Valid eng.table ∧
      k.Valid eng.table ∧ x m = eng.types (answer m.scope.typeParams) (m.withMemory r k)) :
    eng.Blind shape x := by
  intro m m' h
  obtain ⟨r, k, hr, hk, heq⟩ := hx h.remembers_left
  obtain ⟨r', k', hr', hk', heq'⟩ := hx h.remembers_right
  rw [heq, heq', h.scope.typeParams_eq]
  exact EvalM.Alike.types eng _ (h.withMemory hr hr' hk hk')

/-- A class is made alike, whatever the two registries know. -/
theorem blind_classOf (ty : Ty) (span : Span) : eng.Blind shape (eng.classOf ty span) :=
  .of_memory (fun _ => eng.table.classFor ty span) fun hm => by
    obtain ⟨r, hr, heq⟩ := classOf_eq hm ty span
    exact ⟨r, _, hr, hm.current, heq⟩

theorem blind_staticView (name : String) (span : Span) :
    eng.Blind shape (eng.staticView name span) :=
  .of_memory (fun _ => eng.table.viewFor name span) fun hm => by
    obtain ⟨r, hr, heq⟩ := staticView_eq hm name span
    exact ⟨r, _, hr, hm.current, heq⟩

/-- A written type resolves alike, since both sides see the same parameters. -/
theorem blind_resolveType (e : TypeExpr) : eng.Blind shape (eng.resolveType e) :=
  .of_memory (fun params => eng.table.meaning params e) (resolveType_eq e)

theorem blind_staticClass (name : String) (span : Span) :
    eng.Blind shape (eng.staticClass name span) :=
  .of_memory (fun _ => eng.table.namedView name span) fun hm => staticClass_eq hm name span

theorem blind_depth : eng.Blind shape (EvalM.depth : EvalM F Nat) :=
  reads fun h => congrArg List.length h.stack

theorem blind_contents (o : ObjectRef F) : eng.Blind shape (EvalM.contents o) :=
  reads fun {m m'} h => by
    show m'.heap[o.id]? = m.heap[o.id]?
    rw [h.heap]

theorem blind_field? (o : ObjectRef F) (name : String) : eng.Blind shape (EvalM.field? o name) :=
  map (blind_contents o) _

theorem blind_modifyContents (o : ObjectRef F) (f : Instance F → Instance F) :
    eng.Blind shape (EvalM.modifyContents o f) :=
  changes fun h => h.withHeap (by rw [h.heap])

theorem blind_setField (o : ObjectRef F) (name : String) (value : Value F) :
    eng.Blind shape (EvalM.setField o name value) := by
  refine .bind (blind_field? o name) fun v => ?_
  cases v with
  | none => exact .pure _
  | some v => exact .bind (blind_modifyContents o _) fun _ => .pure _

theorem blind_newObject (c : RuntimeClass F) (fields : List (String × Variable F)) :
    eng.Blind shape (EvalM.newObject c fields) := by
  intro m m' h
  show EvalM.EndsAlike eng.table shape
    (.ok (⟨m.heap.size, c⟩ : ObjectRef F) { m with heap := m.heap.push { fields } })
    (.ok ⟨m'.heap.size, c⟩ { m' with heap := m'.heap.push { fields } })
  rw [h.heap]
  exact .ok (h.withHeap rfl)

theorem blind_newFields (span : Span) (slots : List FieldSlot) :
    ∀ made : List (String × Variable F), eng.Blind shape (eng.newFields span slots made) := by
  induction slots with
  | nil => exact fun made => .pure _
  | cons slot rest ih =>
    intro made
    unfold newFields
    cases made.lookup slot.name with
    | some v => exact ih made
    | none => exact .bind (blind_classOf slot.ty span) fun c => ih _

/-- An object is allocated at the same place. -/
theorem blind_allocate (c : RuntimeClass F) (span : Span) :
    eng.Blind shape (eng.allocate c span) :=
  .bind (blind_newFields span _ _) fun _ => blind_newObject _ _

theorem blind_write (text : String) : eng.Blind shape (eng.write text) := by
  unfold write
  split
  · exact .pure _
  · refine .bind (changes fun h => ?_) fun _ => .pure _
    exact ⟨h.registryLeft, h.registryRight, h.heap, h.statics, h.stack,
      congrArg (· ++ text) h.output, h.scope⟩

/-- What the observer is told makes no difference. -/
theorem alike_tellStatement (span span' : Span) :
    EvalM.Alike eng.table shape (eng.tellStatement span) (eng.tellStatement span') := by
  unfold tellStatement
  split
  · exact changes fun h => h.tell eng _ _
  · exact .pure _

/-- The observer may also be told something on the right only. -/
theorem alike_tell_right {x y : EvalM F α} (hx : EvalM.Alike eng.table shape x y) (span : Span) :
    EvalM.Alike eng.table shape x (eng.tellStatement span >>= fun _ => y) := by
  unfold tellStatement
  split
  · exact fun m m' h => hx (h.told_right eng _)
  · exact hx

/-! ## Names -/

theorem blind_typedValue (v : Value F) (span : Span) : eng.Blind shape (eng.typedValue v span) := by
  cases v with
  | object o => exact .pure _
  | cls c => exact .pure _
  | _ => exact map (blind_classOf _ span) _

theorem blind_ownField? (context : Context F) (name : String) :
    eng.Blind shape (EvalM.ownField? context name) := by
  unfold EvalM.ownField?
  split
  · exact blind_field? _ name
  · exact .pure _

theorem blind_lookupClass (name : Identifier) : eng.Blind shape (eng.lookupClass name) := by
  refine .bind (blind_staticClass _ _) fun c => ?_
  cases c with
  | some c => exact .pure _
  | none =>
    dsimp only
    split
    · exact blind_typedValue _ _
    · exact .raise eng _ _

/-- A name stands for the same on both sides: extra levels have no variables. -/
theorem blind_lookup (name : Identifier) : eng.Blind shape (eng.lookup name) := by
  rw [Blind, lookup_eq]
  refine scope_bind fun {s s'} hs => ?_
  unfold lookupIn
  rw [hs.context, hs.lookup_eq]
  split
  · split
    · exact .pure _
    · exact .raise eng _ _
  · split
    · exact .pure _
    · refine .bind (blind_ownField? _ _) fun v => ?_
      cases v with
      | some v => exact .pure _
      | none => exact blind_lookupClass name

theorem blind_undefinedField (receiver : Value F) (field : Identifier) :
    eng.Blind shape (eng.undefinedField receiver field : EvalM F α) :=
  .raise eng _ _

/-! ## Assignment -/

theorem blind_setOwnField (context : Context F) (name : String) (value : Value F) :
    eng.Blind shape (EvalM.setOwnField context name value) := by
  unfold EvalM.setOwnField
  split
  · exact blind_setField _ name value
  · exact .pure _

/-- An assignment changes the same variable on both sides. -/
theorem blind_store (target : Identifier) (value : Value F) :
    eng.Blind shape (eng.store target value) := by
  rw [Blind, store_eq]
  split
  · exact .raise eng _ _
  · intro m m' h
    have hassign := h.scope.assign target.name value
    show EvalM.EndsAlike _ _ (eng.storeIn target value m.scope m)
      (eng.storeIn target value m'.scope m')
    unfold storeIn
    generalize m.scope.assign target.name value = s at hassign
    generalize m'.scope.assign target.name value = s' at hassign
    cases hassign with
    | some hs => exact .ok (h.withScope hs)
    | none =>
      rw [h.scope.context]
      refine bind (blind_setOwnField _ _ _) (fun b => ?_) h
      unfold storedOr
      split
      · exact .pure _
      · exact .raise eng _ _

theorem blind_combine (op : AssignOp) {current : EvalM F (Value F)} (h : eng.Blind shape current)
    (value : Value F) (span : Span) : eng.Blind shape (eng.combine op current value span) := by
  unfold combine
  split
  · exact .pure _
  · exact .bind h fun now => .operators eng span _

theorem blind_fieldNow (o : ObjectRef F) (field : Identifier) :
    eng.Blind shape (eng.fieldNow o field) := by
  refine .bind (blind_field? o _) fun v => ?_
  cases v with
  | some v => exact .pure _
  | none => exact blind_undefinedField _ _

theorem blind_storeField (receiver : Value F) (field : Identifier) (op : AssignOp)
    (value : Value F) (span : Span) :
    eng.Blind shape (eng.storeField receiver field op value span) := by
  cases receiver with
  | object o =>
    refine .bind (blind_combine op (blind_fieldNow o field) value span) fun v => ?_
    refine .bind (blind_setField o _ _) fun b => ?_
    split
    · exact .pure _
    · exact blind_undefinedField _ _
  | null => exact .raise eng _ _
  | cls c => exact .raise eng _ _
  | int n => exact blind_undefinedField (.int n) field
  | float x => exact blind_undefinedField (.float x) field
  | bool b => exact blind_undefinedField (.bool b) field
  | str s => exact blind_undefinedField (.str s) field
  | «namespace» path => exact blind_undefinedField (.namespace path) field

end Engine

/-! ## Native functions -/

/-- Calls of other members that end alike on machines that are alike. -/
structure Calls.Blind (eng : Engine F) (calls : Calls F) : Prop where
  dispatch : ∀ shape c this name isStatic args argTypes span,
    eng.Blind shape (calls.dispatch c this name isStatic args argTypes span)
  construct : ∀ shape c args argTypes span,
    eng.Blind shape (calls.construct c args argTypes span)

namespace Engine

open EvalM.Alike

variable {eng : Engine F} {calls : Calls F} (hcalls : calls.Blind eng)

include hcalls

/-- A native function is handed the same, step by step. -/
theorem blind_runHost (span : Span) (p : HostProgram F α) :
    eng.Blind shape (eng.runHost calls span p) := by
  induction p with
  | done a => exact .pure a
  | fail fault =>
    cases fault with
    | message text => exact .raise eng _ _
    | nullDereference member => exact .raise eng _ _
  | write text next ih =>
    refine .bind (blind_write text) fun e => ?_
    cases e with
    | some e => exact .raise eng _ _
    | none => exact ih
  | classOf ty next ih => exact .bind (blind_classOf ty span) ih
  | allocate c next ih => exact .bind (blind_allocate c span) ih
  | construct c args next ih => exact .bind (hcalls.construct _ c args _ span) ih
  | getState o next ih => exact .bind (blind_contents o) fun i => ih _
  | setState o state next ih => exact .bind (blind_modifyContents o _) fun _ => ih
  | depth next ih => exact .bind blind_depth ih

variable [HostFunctions F]

theorem blind_callHost (function : F) (call : HostCall F) :
    eng.Blind shape (eng.callHost calls function call) :=
  blind_runHost hcalls _ _

theorem blind_staticOr (owner : RuntimeClass F) (field : NativeField F) (span : Span)
    (v : Option (Variable F)) : eng.Blind shape (eng.staticOr calls owner field span v) := by
  cases v with
  | some v => exact .pure _
  | none =>
    refine .bind (.types eng _) fun ty => .bind (blind_classOf ty span) fun cls => ?_
    refine .bind (blind_callHost hcalls _ _) fun value => .bind (changes fun h => ?_) fun _ => .pure _
    exact ⟨h.registryLeft, h.registryRight, h.heap, congrArg (_ :: ·) h.statics, h.stack, h.output,
      h.scope⟩

/-- A static field is initialised on both sides or on neither. -/
theorem blind_staticField (c : RuntimeClass F) (name : String) (span : Span) :
    eng.Blind shape (eng.staticField calls c name span) := by
  cases howner : staticFieldOwner? c name c.layers with
  | none =>
    rw [Blind, staticField_of_none eng calls howner]
    exact .raise eng _ _
  | some r =>
    obtain ⟨owner, field⟩ := r
    rw [Blind, staticField_eq eng calls howner]
    intro m m' h
    show EvalM.EndsAlike _ _ (eng.staticOr calls owner field span (m.statics.lookup _) m)
      (eng.staticOr calls owner field span (m'.statics.lookup _) m')
    rw [h.statics]
    exact blind_staticOr hcalls owner field span _ h

theorem blind_fieldValue (receiver : Value F) (field : Identifier) (span : Span) :
    eng.Blind shape (eng.fieldValue calls receiver field span) := by
  cases receiver with
  | «namespace» path =>
    unfold fieldValue
    dsimp only
    split
    · exact blind_typedValue _ _
    · exact map (blind_staticView _ span) _
    · exact .raise eng _ _
  | cls c => exact blind_staticField hcalls c _ span
  | object o =>
    refine .bind (blind_field? o _) fun v => ?_
    cases v with
    | some v => exact .pure _
    | none => exact blind_undefinedField _ _
  | null => exact .raise eng _ _
  | int n => exact blind_undefinedField (.int n) field
  | float x => exact blind_undefinedField (.float x) field
  | bool b => exact blind_undefinedField (.bool b) field
  | str s => exact blind_undefinedField (.str s) field

omit [HostFunctions F] in
theorem blind_callMethod (receiver : Variable F) (method : Identifier)
    (args : List (Variable F)) (argTypes : List Ty) (span : Span) :
    eng.Blind shape (eng.callMethod calls receiver method args argTypes span) := by
  refine .bind ?_ fun target => hcalls.dispatch _ _ _ _ _ _ _ _
  obtain ⟨c, v⟩ := receiver
  cases v with
  | null => exact .raise eng _ _
  | str s => exact map (blind_classOf _ span) _
  | «namespace» path => exact .raise eng _ _
  | _ => exact .pure _

end Engine

/-! ## Expressions -/

namespace Engine

open EvalM.Alike

variable [HostFunctions F] {eng : Engine F} {calls : Calls F}

mutual

/-- An expression ends alike on machines that are alike. -/
theorem blind_eval (hcalls : calls.Blind eng) : ∀ e : Expr, eng.Blind shape (eng.eval calls e)
  | .literal value span => by
    rw [Blind, eval]
    exact map (blind_classOf _ span) _
  | .var name => by
    rw [Blind, eval]
    exact blind_lookup name
  | .binary lhs op rhs span => by
    rw [Blind, eval]
    refine .bind (blind_eval hcalls lhs) fun l => .bind (blind_eval hcalls rhs) fun r => ?_
    exact .bind (.operators eng span _) fun v => blind_typedValue v span
  | .unary op operand span => by
    rw [Blind, eval]
    exact .bind (blind_eval hcalls operand) fun v => .bind (.operators eng span _) fun v =>
      blind_typedValue v span
  | .step op before (.var name) span => by
    rw [Blind, eval]
    refine .bind (blind_lookup name) fun current => .bind (.operators eng span _) fun next => ?_
    exact .bind (blind_store name next) fun _ => .pure _
  | .step op before (.field receiver field _) span => by
    rw [Blind, eval]
    refine .bind (blind_eval hcalls receiver) fun r => ?_
    refine .bind (blind_fieldValue hcalls r.value field span) fun current => ?_
    refine .bind (.operators eng span _) fun next => ?_
    exact .bind (blind_storeField _ field .set next span) fun _ => .pure _
  | .step op before (.literal _ _) span => by simp only [Blind, eval]; exact .raise eng _ _
  | .step op before (.binary _ _ _ _) span => by simp only [Blind, eval]; exact .raise eng _ _
  | .step op before (.unary _ _ _) span => by simp only [Blind, eval]; exact .raise eng _ _
  | .step op before (.step _ _ _ _) span => by simp only [Blind, eval]; exact .raise eng _ _
  | .step op before (.ternary _ _ _ _) span => by simp only [Blind, eval]; exact .raise eng _ _
  | .step op before (.new _ _ _) span => by simp only [Blind, eval]; exact .raise eng _ _
  | .step op before (.call _ _ _ _) span => by simp only [Blind, eval]; exact .raise eng _ _
  | .step op before (.cast _ _ _) span => by simp only [Blind, eval]; exact .raise eng _ _
  | .step op before (.instanceOf _ _ _) span => by simp only [Blind, eval]; exact .raise eng _ _
  | .step op before (.group _ _) span => by simp only [Blind, eval]; exact .raise eng _ _
  | .ternary condition thenValue elseValue span => by
    rw [Blind, eval]
    refine .bind (blind_eval hcalls condition) fun v => ?_
    split
    · exact blind_eval hcalls thenValue
    · exact blind_eval hcalls elseValue
    · exact .raise eng _ _
  | .new ty arguments span => by
    rw [Blind, eval]
    refine .bind (blind_resolveType ty) fun c => .bind (blind_evalAll hcalls arguments) fun args => ?_
    exact map (hcalls.construct _ c args _ span) _
  | .field receiver field span => by
    rw [Blind, eval]
    exact .bind (blind_eval hcalls receiver) fun r => blind_fieldValue hcalls r.value field span
  | .call receiver method arguments span => by
    rw [Blind, eval]
    refine .bind (blind_eval hcalls receiver) fun r => .bind (blind_evalAll hcalls arguments) fun args => ?_
    refine .bind (blind_callMethod hcalls r method args _ span) fun v => ?_
    cases v with
    | some v => exact .pure _
    | none => exact map (blind_classOf _ span) _
  | .cast ty expression _ => by
    rw [Blind, eval]
    exact .bind (blind_resolveType ty) fun c => map (blind_eval hcalls expression) _
  | .instanceOf expression ty span => by
    rw [Blind, eval]
    exact .bind (blind_resolveType ty) fun target => .bind (blind_eval hcalls expression) fun v =>
      blind_typedValue _ span
  | .group expression _ => by
    rw [Blind, eval]
    exact blind_eval hcalls expression

theorem blind_evalAll (hcalls : calls.Blind eng) : ∀ es : List Expr, eng.Blind shape (eng.evalAll calls es)
  | [] => by
    rw [Blind, evalAll]
    exact .pure _
  | e :: rest => by
    rw [Blind, evalAll]
    exact .bind (blind_eval hcalls e) fun v => map (blind_evalAll hcalls rest) _

end

/-! ## Statements -/

section

variable (hcalls : calls.Blind eng)

include hcalls

theorem blind_condition (e : Expr) : eng.Blind shape (eng.condition calls e) := by
  refine .bind (blind_eval hcalls e) fun v => ?_
  split
  · exact .pure _
  · exact .raise eng _ _

theorem blind_initialValue (c : RuntimeClass F) (e : Option Expr) :
    eng.Blind shape (eng.initialValue calls c e) := by
  cases e with
  | none => exact .pure _
  | some e => exact map (blind_eval hcalls e) _

theorem blind_assignName (target : Identifier) (op : AssignOp) (e : Expr) (span : Span) :
    eng.Blind shape (eng.assignName calls target op e span) :=
  .bind (blind_eval hcalls e) fun v =>
    .bind (blind_combine op (map (blind_lookup target) _) v.value span) fun _ =>
      blind_store target _

theorem blind_assignField (receiver : Expr) (field : Identifier) (op : AssignOp) (e : Expr)
    (span : Span) : eng.Blind shape (eng.assignField calls receiver field op e span) :=
  .bind (blind_eval hcalls receiver) fun _ => .bind (blind_eval hcalls e) fun _ =>
    blind_storeField _ field op _ span

theorem blind_returnValue (e : Option Expr) : eng.Blind shape (eng.returnValue calls e) := by
  cases e with
  | none => exact .pure _
  | some e => exact map (blind_eval hcalls e) _

end

omit [HostFunctions F] in
/-- A declaration at a level that is on both sides. -/
theorem blind_define (name : String) (v : Variable F) :
    eng.Blind (true :: shape) (EvalM.modifyScope fun scope => scope.define name v) :=
  changes fun h => h.withScope (h.scope.define name v)

omit [HostFunctions F] in
/-- Loops whose parts end alike end alike, with the same number of rounds. -/
theorem alike_rounds {test test' : EvalM F Bool} {body body' : EvalM F (Flow F)}
    {update update' : EvalM F Unit} (htest : EvalM.Alike t shape test test')
    (hbody : EvalM.Alike t shape body body') (hupdate : EvalM.Alike t shape update update')
    (n : Nat) : EvalM.Alike t shape (rounds test body update n) (rounds test' body' update' n) := by
  induction n with
  | zero => exact .exhausted
  | succ n ih =>
    refine .bind htest fun b => ?_
    split
    · refine .bind hbody fun flow => ?_
      cases flow with
      | returned v => exact .pure _
      | normal => exact .bind hupdate fun _ => ih
    · exact .pure _

mutual

/-- A statement ends alike on machines that are alike; a declaration where its level is on both
sides. -/
theorem blind_exec (hcalls : calls.Blind eng) : ∀ (s : Stmt) {shape : List Bool},
    (s.isLocal = true → shape.head? = some true) → eng.Blind shape (eng.exec calls s)
  | .localVariable ty name value span, shape, hlevel => by
    obtain ⟨shape, rfl⟩ : ∃ rest, shape = true :: rest := List.head?_eq_some_iff.mp (hlevel rfl)
    rw [Blind, exec]
    refine .bind (alike_tellStatement _ _) fun _ => .bind (blind_resolveType ty) fun c => ?_
    exact .bind (blind_initialValue hcalls c value) fun v => .bind (blind_define _ _) fun _ =>
      .pure _
  | .assign target op e span, _, _ => by
    rw [Blind, exec]
    exact .bind (alike_tellStatement _ _) fun _ =>
      .bind (blind_assignName hcalls target op e span) fun _ => .pure _
  | .fieldAssign receiver field op e span, _, _ => by
    rw [Blind, exec]
    exact .bind (alike_tellStatement _ _) fun _ =>
      .bind (blind_assignField hcalls receiver field op e span) fun _ => .pure _
  | .expression e span, _, _ => by
    rw [Blind, exec]
    exact .bind (alike_tellStatement _ _) fun _ => .bind (blind_eval hcalls e) fun _ => .pure _
  | .ifElse test thenBranch none span, _, _ => by
    rw [Blind, exec]
    refine .bind (alike_tellStatement _ _) fun _ => .bind (blind_condition hcalls test) fun b => ?_
    split
    · exact .nested (blind_execBlock hcalls thenBranch)
    · exact .pure _
  | .ifElse test thenBranch (some elseBranch) span, _, _ => by
    rw [Blind, exec]
    refine .bind (alike_tellStatement _ _) fun _ => .bind (blind_condition hcalls test) fun b => ?_
    split
    · exact .nested (blind_execBlock hcalls thenBranch)
    · exact .nested (blind_execBlock hcalls elseBranch)
  | .whileLoop test body span, _, _ => by
    rw [Blind, exec]
    exact .bind (alike_tellStatement _ _) fun _ => alike_rounds (blind_condition hcalls test)
      (.nested (blind_execBlock hcalls body)) (.pure _) _
  | .forLoop init test update body span, _, _ => by
    rw [Blind, exec]
    refine .bind (alike_tellStatement _ _) fun _ => .nested ?_
    refine .bind (blind_exec hcalls init fun _ => rfl) fun _ => ?_
    exact alike_rounds (blind_condition hcalls test) (.nested (blind_execBlock hcalls body))
      (.bind (blind_exec hcalls update fun _ => rfl) fun _ => .pure _) _
  | .returns value span, _, _ => by
    rw [Blind, exec]
    exact .bind (alike_tellStatement _ _) fun _ => map (blind_returnValue hcalls value) _
  | .block body span, _, _ => by
    rw [Blind, exec]
    exact .bind (alike_tellStatement _ _) fun _ => .nested (blind_execBlock hcalls body)

/-- A block declares at a level that is on both sides. -/
theorem blind_execBlock (hcalls : calls.Blind eng) : ∀ (ss : List Stmt) {shape : List Bool},
    eng.Blind (true :: shape) (eng.execBlock calls ss)
  | [], _ => by
    rw [Blind, execBlock]
    exact .pure _
  | s :: rest, _ => by
    rw [Blind, execBlock]
    refine .bind (blind_exec hcalls s fun _ => rfl) fun flow => ?_
    cases flow with
    | returned v => exact .pure _
    | normal => exact blind_execBlock hcalls rest

end

/-! ## Members -/

omit [HostFunctions F] in
/-- Parameters are declared at a level that is on both sides. -/
theorem blind_bindParameters (bindings : Bindings) (span : Span) (ps : List Param) :
    ∀ vs : List (Variable F), eng.Blind (true :: shape) (eng.bindParameters bindings span ps vs) := by
  induction ps with
  | nil =>
    intro vs
    rw [Blind, bindParameters]
    · exact .pure _
    · simp
  | cons p ps ih =>
    intro vs
    cases vs with
    | nil =>
      rw [Blind, bindParameters]
      · exact .pure _
      · simp
    | cons v vs =>
      rw [Blind, bindParameters]
      exact .bind (blind_classOf _ span) fun c => .bind (blind_define _ _) fun _ => ih vs

section

variable (hcalls : calls.Blind eng)

include hcalls

theorem blind_methodValue (s : Selected F (RuntimeClass F)) (bindings : Bindings) (this : Value F)
    (args : List (Variable F)) (span : Span) :
    eng.Blind shape (eng.methodValue calls s bindings this args span) := by
  unfold methodValue
  split
  · exact map (blind_callHost hcalls _ _) _
  · refine .withScope (.bind (blind_bindParameters bindings span _ _) fun _ => ?_) _ _
    refine .bind (blind_execBlock hcalls _) fun flow => ?_
    cases flow with
    | returned v => exact .pure _
    | normal => exact .pure _

/-- A call has a scope of its own, so the shape of the scope around it does not matter. -/
theorem blind_dispatch (shape : List Bool) (c : RuntimeClass F) (this : Value F) (name : String)
    (isStatic : Bool) (args : List (Variable F)) (argTypes : List Ty) (span : Span) :
    eng.Blind shape (eng.dispatch calls c this name isStatic args argTypes span) := by
  refine .bind (.types eng _) fun resolution => ?_
  cases resolution with
  | found s =>
    refine .withFrame (.bind (blind_methodValue hcalls s _ this args span) fun result => ?_) eng _
    split
    · exact map (blind_classOf _ span) _
    · exact .pure _
  | ambiguous a => exact .raise eng _ _
  | missing m => exact .raise eng _ _
  | defaultConstructor => exact .pure _

theorem blind_runConstructor (s : Selected F (RuntimeClass F)) (o : ObjectRef F)
    (args : List (Variable F)) (span : Span)
    {base : Option (List (Variable F) → List Ty → Span → EvalM F Unit)}
    (hbase : ∀ construct ∈ base, ∀ {shape : List Bool} vs tys sp,
      eng.Blind shape (construct vs tys sp)) :
    eng.Blind shape (eng.runConstructor calls s o args span base) := by
  refine .withFrame ?_ eng _
  split
  · exact .bind (blind_callHost hcalls _ _) fun _ => .pure _
  · refine .withScope (.bind (blind_bindParameters _ span _ _) fun _ => ?_) _ _
    cases base with
    | none => exact .bind (blind_execBlock hcalls _) fun _ => .pure _
    | some construct =>
      refine .bind (blind_evalAll hcalls _) fun superArgs => ?_
      exact .bind (hbase construct rfl _ _ _) fun _ => .bind (blind_execBlock hcalls _) fun _ =>
        .pure _

/-- So it is with constructors, by induction on the levels of the class. -/
theorem blind_runConstructors (o : ObjectRef F) (isStaticView : Bool) (layers : List (Layer F)) :
    ∀ {shape : List Bool} args argTypes span,
      eng.Blind shape (eng.runConstructors calls o isStaticView layers args argTypes span) := by
  induction layers with
  | nil => exact fun _ _ _ => .pure _
  | cons layer rest ih =>
    intro shape args argTypes span
    refine .bind (.types eng _) fun resolution => ?_
    cases resolution with
    | found s =>
      refine blind_runConstructor hcalls s o args span fun construct hc => ?_
      split at hc
      · cases hc
      · cases hc
        exact ih
    | ambiguous a => exact .raise eng _ _
    | missing m => exact .raise eng _ _
    | defaultConstructor => exact ih [] [] span

theorem blind_construct (shape : List Bool) (c : RuntimeClass F) (args : List (Variable F))
    (argTypes : List Ty) (span : Span) :
    eng.Blind shape (eng.construct calls c args argTypes span) :=
  .bind (blind_allocate c span) fun o =>
    .bind (blind_runConstructors hcalls o _ _ args argTypes span) fun _ => .pure _

end

end Engine

/-- Calls end alike on machines that are alike, at every depth. -/
theorem Calls.blind_atDepth [HostFunctions F] (eng : Engine F) (n : Nat) :
    (Calls.atDepth eng n).Blind eng := by
  induction n with
  | zero => exact ⟨fun _ _ _ _ _ _ _ _ => .exhausted, fun _ _ _ _ _ => .exhausted⟩
  | succ n ih =>
    rw [Calls.atDepth]
    exact ⟨Engine.blind_dispatch ih, Engine.blind_construct ih⟩

end Middleweight
