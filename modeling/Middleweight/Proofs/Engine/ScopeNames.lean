import Middleweight.Proofs.Engine.KeptScope
import Middleweight.Proofs.Engine.Parts
import Middleweight.Proofs.Engine.Typing

/-!
# Names in scope

Which names a scope has, level by level, does not depend on the values of its variables. Expressions
leave the names of all levels as they are, and what the body belongs to as well. A statement that
declares a local adds its name at the innermost level, and other statements add none: what they
declare inside is gone when they end.

* `Engine.keepsNames_eval` : expressions
* `Engine.declares_exec`, `Engine.keepsOuter_execBlock` : statements
* `Engine.names_bindParameters` : parameters
-/

namespace Middleweight

variable {F α β : Type}

/-! ## Names of levels -/

/-- The names that a level has. -/
def Level.names (l : Level F) : String → Bool := fun name => (l.locals.lookup name).isSome

namespace Scope

/-- The names of all levels, the innermost first. -/
def names (s : Scope F) : List (String → Bool) := s.levels.map Level.names

/-- One more name at the innermost level, if one is given. -/
def withName : Option String → List (String → Bool) → List (String → Bool)
  | some name, level :: outer => (fun key => key == name || level key) :: outer
  | _, levels => levels

theorem tail_withName (name? : Option String) (levels : List (String → Bool)) :
    (withName name? levels).tail = levels.tail := by
  cases name? with
  | none => rfl
  | some name => cases levels <;> rfl

/-- A new level has no names. -/
theorem names_push (s : Scope F) : s.push.names = (fun _ => false) :: s.names := rfl

/-- A declared variable adds its name at the innermost level. -/
theorem names_define (s : Scope F) (name : String) (v : Variable F) :
    (s.define name v).names = withName (some name) s.names := by
  show (s.current.define name v).names :: s.outer.map Level.names = _
  refine congrArg (· :: _) (funext fun key => ?_)
  unfold Level.define Level.names
  dsimp only
  rw [List.lookup_cons]
  by_cases hkey : key = name
  · simp [hkey]
  · rw [beq_false_of_ne hkey, lookup_filter_ne hkey]
    rfl

/-- Assigning gives no level another name. -/
theorem names_assign {s s' : Scope F} {name : String} {value : Value F}
    (h : s.assign name value = some s') : s'.context = s.context ∧ s'.names = s.names := by
  have hset : ∀ l : Level F,
      Level.names { l with locals := Instance.setIn name value l.locals } = l.names := by
    intro l
    funext key
    unfold Level.names
    dsimp only
    rw [Instance.lookup_setIn]
    split
    · rw [Option.isSome_map]
    · rfl
  have hlevels : ∀ {ls ls' : List (Level F)}, assignIn name value ls = some ls' →
      ls'.map Level.names = ls.map Level.names := by
    intro ls
    induction ls with
    | nil => exact fun h => nomatch h
    | cons l rest ih =>
      intro ls' h
      rw [assignIn] at h
      split at h
      · cases h
        rw [List.map_cons, List.map_cons, hset]
      · obtain ⟨rest', hrest, rfl⟩ := Option.map_eq_some_iff.mp h
        rw [List.map_cons, List.map_cons, ih hrest]
  unfold assign at h
  split at h
  · next hassign =>
    cases h
    exact ⟨rfl, hlevels hassign⟩
  · cases h

end Scope

/-- The name that a statement declares around it. -/
def Stmt.localName? : Stmt → Option String
  | .localVariable _ name _ _ => some name.name
  | _ => none

/-- Only the declaration of a local adds a name. -/
theorem Stmt.localName?_of_isLocal {s : Stmt} (h : s.isLocal = false) : s.localName? = none := by
  cases s <;> first | rfl | cases h

/-! ## Computations -/

namespace EvalM

/-- When a computation has ended well, at most one name has been added, at the innermost level. -/
def Declares (name? : Option String) (x : EvalM F α) : Prop :=
  ∀ m a m', x m = .ok a m' → m'.scope.context = m.scope.context ∧
    m'.scope.names = Scope.withName name? m.scope.names

/-- A computation that leaves the names of all levels as they were. -/
abbrev KeepsNames (x : EvalM F α) : Prop := Declares none x

/-- A computation that leaves the names of all levels but the innermost as they were. -/
def KeepsOuter (x : EvalM F α) : Prop :=
  ∀ m a m', x m = .ok a m' → m'.scope.context = m.scope.context ∧
    m'.scope.names.tail = m.scope.names.tail

namespace Declares

variable {x : EvalM F α} {f : α → EvalM F β} {name? : Option String}

/-- First nothing is declared, then a name. -/
theorem bind_keeps (hx : Declares none x) (hf : ∀ a, Declares name? (f a)) :
    Declares name? (x >>= f) := by
  intro m b m' h
  obtain ⟨a, m₁, hx₁, hf₁⟩ := ok_of_bind h
  obtain ⟨hcontext, hnames⟩ := hx m a m₁ hx₁
  obtain ⟨hcontext', hnames'⟩ := hf a m₁ b m' hf₁
  exact ⟨hcontext'.trans hcontext, by rw [hnames', hnames]; rfl⟩

/-- First a name is declared, then nothing. -/
theorem bind (hx : Declares name? x) (hf : ∀ a, Declares none (f a)) :
    Declares name? (x >>= f) := by
  intro m b m' h
  obtain ⟨a, m₁, hx₁, hf₁⟩ := ok_of_bind h
  obtain ⟨hcontext, hnames⟩ := hx m a m₁ hx₁
  obtain ⟨hcontext', hnames'⟩ := hf a m₁ b m' hf₁
  exact ⟨hcontext'.trans hcontext, by rw [hnames', hnames]; rfl⟩

theorem pure (a : α) : KeepsNames (Pure.pure a : EvalM F α) := by
  intro m b m' h
  cases h
  exact ⟨rfl, rfl⟩

theorem map (hx : Declares name? x) (g : α → β) : Declares name? (do return g (← x)) :=
  hx.bind fun _ => .pure _

/-- A computation that never ends well. -/
theorem of_error (h : ∀ m a m', x m ≠ .ok a m') : Declares name? x :=
  fun m a m' hx => absurd hx (h m a m')

theorem raise (eng : Engine F) (fault : Fault F) (span : Span) :
    Declares name? (eng.raise fault span : EvalM F α) :=
  of_error fun _ _ _ h => nomatch h

theorem of_scopeKept (h : ScopeKept x) : KeepsNames x := by
  intro m a m' hx
  rw [h.of_ok hx]
  exact ⟨rfl, rfl⟩

theorem modifyScope {g : Scope F → Scope F}
    (h : ∀ s, (g s).context = s.context ∧ (g s).names = Scope.withName name? s.names) :
    Declares name? (EvalM.modifyScope g) := by
  intro m a m' hx
  cases hx
  exact h m.scope

/-- A declaration leaves the names of the levels around as they are. -/
theorem keepsOuter (h : Declares name? x) : KeepsOuter x := by
  intro m a m' hx
  obtain ⟨hcontext, hnames⟩ := h m a m' hx
  exact ⟨hcontext, by rw [hnames, Scope.tail_withName]⟩

end Declares

namespace KeepsOuter

variable {x : EvalM F α} {f : α → EvalM F β}

/-- Parts that leave the outer levels as they are do so together. -/
theorem bind (hx : KeepsOuter x) (hf : ∀ a, KeepsOuter (f a)) : KeepsOuter (x >>= f) := by
  intro m b m' h
  obtain ⟨a, m₁, hx₁, hf₁⟩ := ok_of_bind h
  obtain ⟨hcontext, hnames⟩ := hx m a m₁ hx₁
  obtain ⟨hcontext', hnames'⟩ := hf a m₁ b m' hf₁
  exact ⟨hcontext'.trans hcontext, hnames'.trans hnames⟩

/-- The level that a part has for itself is gone when the part ends. -/
theorem nested (hx : KeepsOuter x) : KeepsNames (EvalM.nested x) := by
  intro m a m' h
  obtain ⟨m₁, hx₁, rfl⟩ := ok_of_nested h
  obtain ⟨hcontext, hnames⟩ := hx _ _ _ hx₁
  show m₁.scope.pop.context = _ ∧ m₁.scope.pop.names = _
  generalize m₁.scope = s at hcontext hnames
  obtain ⟨context, current, outer⟩ := s
  cases outer with
  | nil => cases hnames
  | cons l rest => exact ⟨hcontext, hnames⟩

end KeepsOuter

end EvalM

namespace Engine

open EvalM

variable (eng : Engine F)

/-! ## Classes, names and fields -/

theorem keepsNames_register (make : Registry F → Except TypeError (RuntimeClass F × Registry F)) :
    KeepsNames (eng.register make) :=
  .of_scopeKept (eng.scopeKept_register make)

theorem keepsNames_tellStatement (span : Span) : KeepsNames (eng.tellStatement span) := by
  unfold tellStatement
  split
  · refine .of_scopeKept (.change fun m => ?_)
    unfold tell
    split <;> rfl
  · exact .pure _

theorem keepsNames_operators (span : Span) (r : Except (OperatorError F) α) :
    KeepsNames (eng.operators span r) := by
  cases r with
  | ok a => exact .pure a
  | error e => exact .raise eng _ _

theorem keepsNames_scope : KeepsNames (EvalM.scope : EvalM F (Scope F)) :=
  .of_scopeKept (.map .read _)

theorem keepsNames_field? (o : ObjectRef F) (name : String) : KeepsNames (EvalM.field? o name) :=
  .of_scopeKept (.map (.map .read _) _)

theorem keepsNames_setField (o : ObjectRef F) (name : String) (value : Value F) :
    KeepsNames (EvalM.setField o name value) := by
  refine .bind (keepsNames_field? o name) fun v => ?_
  cases v with
  | none => exact .pure _
  | some v => exact .bind (.of_scopeKept (.change fun _ => rfl)) fun _ => .pure _

/-- What is remembered at a level is no name of it. -/
theorem keepsNames_remember (name : String) (key : CacheKey) (c : RuntimeClass F) :
    KeepsNames (EvalM.modifyScope fun s => s.remember name key c) :=
  .modifyScope fun _ => ⟨rfl, rfl⟩

mutual

/-- Resolving a written type only adds to what levels remember. -/
theorem keepsNames_resolveType : ∀ e : TypeExpr, KeepsNames (eng.resolveType e)
  | ⟨name, generics, span⟩ => by
    rw [resolveType]
    refine .bind keepsNames_scope fun s => ?_
    split
    · exact eng.keepsNames_register _
    · refine .bind (keepsNames_resolveTypes generics) fun args => .bind keepsNames_scope fun s => ?_
      split
      · exact .pure _
      · split
        · exact .raise eng _ _
        · exact .bind (eng.keepsNames_register _) fun c =>
            .bind (keepsNames_remember _ _ _) fun _ => .pure _

theorem keepsNames_resolveTypes : ∀ es : List TypeExpr, KeepsNames (eng.resolveTypes es)
  | [] => by
    rw [resolveTypes]
    exact .pure _
  | e :: rest => by
    rw [resolveTypes]
    exact .bind (keepsNames_resolveType e) fun c => .map (keepsNames_resolveTypes rest) _

end

theorem keepsNames_staticClass (name : String) (span : Span) :
    KeepsNames (eng.staticClass name span) := by
  unfold staticClass
  refine .bind keepsNames_scope fun s => ?_
  split
  · exact .pure _
  · split
    · exact .pure _
    · exact .bind (eng.keepsNames_register _) fun c =>
        .bind (keepsNames_remember _ _ _) fun _ => .pure _

theorem keepsNames_typedValue (v : Value F) (span : Span) : KeepsNames (eng.typedValue v span) := by
  cases v with
  | object o => exact .pure _
  | cls c => exact .pure _
  | _ => exact .map (eng.keepsNames_register _) _

/-- Looking up a name declares nothing. -/
theorem keepsNames_lookup (name : Identifier) : KeepsNames (eng.lookup name) := by
  have hown : ∀ context, KeepsNames (EvalM.ownField? (F := F) context name.name) := by
    intro context
    unfold EvalM.ownField?
    split
    · exact keepsNames_field? _ _
    · exact .pure _
  rw [lookup_eq]
  refine .bind keepsNames_scope fun s => ?_
  unfold lookupIn
  split
  · split
    · exact .pure _
    · exact .raise eng _ _
  · split
    · exact .pure _
    · refine .bind (hown _) fun v => ?_
      cases v with
      | some v => exact .pure _
      | none =>
        refine .bind (eng.keepsNames_staticClass _ _) fun c => ?_
        cases c with
        | some c => exact .pure _
        | none =>
          dsimp only
          split
          · exact eng.keepsNames_typedValue _ _
          · exact .raise eng _ _

/-- An assignment finds its variable, and declares none. -/
theorem keepsNames_store (target : Identifier) (value : Value F) :
    KeepsNames (eng.store target value) := by
  rw [store_eq]
  split
  · exact .raise eng _ _
  · intro m a m' h
    change eng.storeIn target value m.scope m = .ok a m' at h
    unfold storeIn at h
    cases hassign : m.scope.assign target.name value with
    | some s =>
      rw [hassign] at h
      cases h
      exact Scope.names_assign hassign
    | none =>
      rw [hassign] at h
      refine Declares.bind ?_ (fun stored => ?_) m a m' h
      · unfold EvalM.setOwnField
        split
        · exact keepsNames_setField _ _ _
        · exact .pure _
      · unfold storedOr
        split
        · exact .pure _
        · exact .raise eng _ _

variable {eng} in
theorem keepsNames_combine {op : AssignOp} {current : EvalM F (Value F)}
    (hcurrent : KeepsNames current) (value : Value F) (span : Span) :
    KeepsNames (eng.combine op current value span) := by
  unfold combine
  split
  · exact .pure _
  · exact .bind hcurrent fun _ => eng.keepsNames_operators _ _

theorem keepsNames_storeField (receiver : Value F) (field : Identifier) (op : AssignOp)
    (value : Value F) (span : Span) :
    KeepsNames (eng.storeField receiver field op value span) := by
  cases receiver with
  | object o =>
    rw [storeField_object]
    refine .bind (keepsNames_combine (.bind (keepsNames_field? _ _) fun v => ?_) _ _) fun w =>
      .bind (keepsNames_setField _ _ _) fun stored => ?_
    · cases v with
      | some v => exact .pure _
      | none => exact .raise eng _ _
    · split
      · exact .pure _
      · exact .raise eng _ _
  | _ => exact .raise eng _ _

theorem keepsNames_callTarget (receiver : Variable F) (method : String) (span : Span) :
    KeepsNames (eng.callTarget receiver method span) := by
  unfold callTarget
  split
  · exact .raise eng _ _
  · exact .pure _
  · exact .pure _
  · exact .map (eng.keepsNames_register _) _
  · exact .pure _
  · exact .pure _
  · exact .pure _
  · exact .raise eng _ _

section Calls

variable [HostFunctions F] {calls : Calls F} (hcalls : calls.ScopeKept)

include hcalls

/-- A static field is initialised in a scope of its own. -/
theorem keepsNames_staticField (c : RuntimeClass F) (name : String) (span : Span) :
    KeepsNames (eng.staticField calls c name span) := by
  cases howner : staticFieldOwner? c name c.layers with
  | none =>
    rw [staticField_of_none _ _ howner]
    exact .raise eng _ _
  | some found =>
    obtain ⟨owner, field⟩ := found
    rw [staticField_eq _ _ howner]
    refine .of_scopeKept (.bind .read fun m => ?_)
    unfold staticOr
    split
    · exact .pure _
    · exact .bind (.types eng _) fun _ => .bind (eng.scopeKept_register _) fun _ =>
        .bind (eng.scopeKept_runHost hcalls _ _) fun _ => .bind (.change fun _ => rfl) fun _ =>
          .pure _

theorem keepsNames_fieldValue (receiver : Value F) (field : Identifier) (span : Span) :
    KeepsNames (eng.fieldValue calls receiver field span) := by
  cases receiver with
  | «namespace» path =>
    unfold fieldValue
    dsimp only
    split
    · exact eng.keepsNames_typedValue _ _
    · exact .map (eng.keepsNames_register _) _
    · exact .raise eng _ _
  | cls c => exact eng.keepsNames_staticField hcalls c field.name span
  | object o =>
    refine .bind (keepsNames_field? _ _) fun v => ?_
    cases v with
    | some v => exact .pure _
    | none => exact .raise eng _ _
  | _ => exact .raise eng _ _

omit [HostFunctions F] in
theorem keepsNames_callMethod (receiver : Variable F) (method : Identifier)
    (args : List (Variable F)) (argTypes : List Ty) (span : Span) :
    KeepsNames (eng.callMethod calls receiver method args argTypes span) :=
  .bind (eng.keepsNames_callTarget _ _ _) fun _ =>
    .of_scopeKept (hcalls.dispatch _ _ _ _ _ _ _)

/-! ## Expressions -/

omit hcalls in
mutual

/-- Expressions declare nothing, for calls have scopes of their own. -/
theorem keepsNames_eval (hcalls : calls.ScopeKept) :
    ∀ e : Expr, KeepsNames (eng.eval calls e)
  | .literal value span => by
    rw [eval]
    exact .map (eng.keepsNames_register _) _
  | .var name => by
    rw [eval]
    exact eng.keepsNames_lookup name
  | .binary lhs op rhs span => by
    rw [eval]
    exact .bind (keepsNames_eval hcalls lhs) fun _ => .bind (keepsNames_eval hcalls rhs) fun _ =>
      .bind (eng.keepsNames_operators _ _) fun _ => eng.keepsNames_typedValue _ _
  | .unary op e span => by
    rw [eval]
    exact .bind (keepsNames_eval hcalls e) fun _ =>
      .bind (eng.keepsNames_operators _ _) fun _ => eng.keepsNames_typedValue _ _
  | .step op before target span => by
    unfold eval
    split
    · exact .bind (eng.keepsNames_lookup _) fun _ => .bind (eng.keepsNames_operators _ _) fun _ =>
        .bind (eng.keepsNames_store _ _) fun _ => .pure _
    · next receiver field span' =>
      exact .bind (keepsNames_eval hcalls receiver) fun _ =>
        .bind (eng.keepsNames_fieldValue hcalls _ _ _) fun _ =>
          .bind (eng.keepsNames_operators _ _) fun _ =>
            .bind (eng.keepsNames_storeField _ _ _ _ _) fun _ => .pure _
    · exact .raise eng _ _
  | .ternary condition thenValue elseValue span => by
    rw [eval]
    refine .bind (keepsNames_eval hcalls condition) fun v => ?_
    split
    · exact keepsNames_eval hcalls thenValue
    · exact keepsNames_eval hcalls elseValue
    · exact .raise eng _ _
  | .new ty arguments span => by
    rw [eval]
    exact .bind (eng.keepsNames_resolveType _) fun _ => .bind (keepsNames_evalAll hcalls arguments)
      fun _ => .bind (.of_scopeKept (hcalls.construct _ _ _ _)) fun _ => .pure _
  | .field receiver field span => by
    rw [eval]
    exact .bind (keepsNames_eval hcalls receiver) fun _ => eng.keepsNames_fieldValue hcalls _ _ _
  | .call receiver method arguments span => by
    rw [eval]
    refine .bind (keepsNames_eval hcalls receiver) fun _ => .bind (keepsNames_evalAll hcalls arguments) fun _ =>
      .bind (eng.keepsNames_callMethod hcalls _ _ _ _ _) fun v => ?_
    cases v with
    | some v => exact .pure _
    | none => exact .map (eng.keepsNames_register _) _
  | .cast ty e span => by
    rw [eval]
    exact .bind (eng.keepsNames_resolveType _) fun _ => .map (keepsNames_eval hcalls e) _
  | .instanceOf e ty span => by
    rw [eval]
    exact .bind (eng.keepsNames_resolveType _) fun _ => .bind (keepsNames_eval hcalls e) fun _ =>
      eng.keepsNames_typedValue _ _
  | .group e span => by
    rw [eval]
    exact keepsNames_eval hcalls e

theorem keepsNames_evalAll (hcalls : calls.ScopeKept) :
    ∀ es : List Expr, KeepsNames (eng.evalAll calls es)
  | [] => by
    rw [evalAll]
    exact .pure _
  | e :: rest => by
    rw [evalAll]
    exact .bind (keepsNames_eval hcalls e) fun _ => .map (keepsNames_evalAll hcalls rest) _

end

theorem keepsNames_condition (e : Expr) : KeepsNames (eng.condition calls e) := by
  refine .bind (eng.keepsNames_eval hcalls e) fun v => ?_
  split
  · exact .pure _
  · exact .raise eng _ _

theorem keepsNames_initialValue (c : RuntimeClass F) (value : Option Expr) :
    KeepsNames (eng.initialValue calls c value) := by
  cases value with
  | none => exact .pure _
  | some e => exact .map (eng.keepsNames_eval hcalls e) _

theorem keepsNames_assignName (target : Identifier) (op : AssignOp) (e : Expr) (span : Span) :
    KeepsNames (eng.assignName calls target op e span) :=
  .bind (eng.keepsNames_eval hcalls e) fun _ =>
    .bind (keepsNames_combine (.map (eng.keepsNames_lookup _) _) _ _) fun _ =>
      eng.keepsNames_store _ _

theorem keepsNames_assignField (receiver : Expr) (field : Identifier) (op : AssignOp) (e : Expr)
    (span : Span) : KeepsNames (eng.assignField calls receiver field op e span) :=
  .bind (eng.keepsNames_eval hcalls receiver) fun _ => .bind (eng.keepsNames_eval hcalls e)
    fun _ => eng.keepsNames_storeField _ _ _ _ _

theorem keepsNames_returnValue (value : Option Expr) :
    KeepsNames (eng.returnValue calls value) := by
  cases value with
  | none => exact .pure _
  | some e => exact .map (eng.keepsNames_eval hcalls e) _

/-! ## Statements -/

omit [HostFunctions F] hcalls in
/-- Rounds of a loop whose update declares nothing. -/
theorem keepsNames_rounds {test : EvalM F Bool} {body : EvalM F (Flow F)} {update : EvalM F Unit}
    (htest : KeepsNames test) (hbody : KeepsNames body) (hupdate : KeepsNames update) :
    ∀ n, KeepsNames (rounds test body update n)
  | 0 => fun _ _ _ h => nomatch h
  | n + 1 => by
    refine .bind htest fun b => ?_
    split
    · refine .bind hbody fun flow => ?_
      cases flow with
      | returned v => exact .pure _
      | normal => exact .bind hupdate fun _ => keepsNames_rounds htest hbody hupdate n
    · exact .pure _

omit [HostFunctions F] hcalls in
/-- Rounds of a loop, whose update may declare a name. -/
theorem keepsOuter_rounds {test : EvalM F Bool} {body : EvalM F (Flow F)} {update : EvalM F Unit}
    (htest : KeepsNames test) (hbody : KeepsNames body) (hupdate : KeepsOuter update) :
    ∀ n, KeepsOuter (rounds test body update n)
  | 0 => fun _ _ _ h => nomatch h
  | n + 1 => by
    refine .bind htest.keepsOuter fun b => ?_
    split
    · refine .bind hbody.keepsOuter fun flow => ?_
      cases flow with
      | returned v => exact (Declares.pure _).keepsOuter
      | normal => exact .bind hupdate fun _ => keepsOuter_rounds htest hbody hupdate n
    · exact (Declares.pure _).keepsOuter

omit hcalls in
mutual

/-- A statement declares the name of its local, if it is one, and nothing else. -/
theorem declares_exec (hcalls : calls.ScopeKept) :
    ∀ s : Stmt, Declares s.localName? (eng.exec calls s)
  | .localVariable ty name value span => by
    rw [exec]
    exact .bind_keeps (eng.keepsNames_tellStatement _) fun _ =>
      .bind_keeps (eng.keepsNames_resolveType _) fun _ =>
        .bind_keeps (eng.keepsNames_initialValue hcalls _ _) fun _ =>
          .bind (.modifyScope fun s => ⟨rfl, s.names_define _ _⟩) fun _ => .pure _
  | .assign target op e span => by
    rw [exec]
    exact .bind (eng.keepsNames_tellStatement _) fun _ =>
      .map (eng.keepsNames_assignName hcalls _ _ _ _) _
  | .fieldAssign receiver field op e span => by
    rw [exec]
    exact .bind (eng.keepsNames_tellStatement _) fun _ =>
      .map (eng.keepsNames_assignField hcalls _ _ _ _ _) _
  | .expression e span => by
    rw [exec]
    exact .bind (eng.keepsNames_tellStatement _) fun _ => .map (eng.keepsNames_eval hcalls e) _
  | .ifElse test thenBranch none span => by
    rw [exec]
    refine .bind (eng.keepsNames_tellStatement _) fun _ =>
      .bind (eng.keepsNames_condition hcalls test) fun b => ?_
    split
    · exact (keepsOuter_execBlock hcalls thenBranch).nested
    · exact .pure _
  | .ifElse test thenBranch (some elseBranch) span => by
    rw [exec]
    refine .bind (eng.keepsNames_tellStatement _) fun _ =>
      .bind (eng.keepsNames_condition hcalls test) fun b => ?_
    split
    · exact (keepsOuter_execBlock hcalls thenBranch).nested
    · exact (keepsOuter_execBlock hcalls elseBranch).nested
  | .whileLoop test body span => by
    rw [exec]
    exact .bind (eng.keepsNames_tellStatement _) fun _ =>
      keepsNames_rounds (eng.keepsNames_condition hcalls test) (keepsOuter_execBlock hcalls body).nested
        (.pure _) _
  | .forLoop init test update body span => by
    rw [exec]
    -- What the header and the update declare is at the level around the rounds.
    have hupdate : KeepsOuter (do let _ ← eng.exec calls update) :=
      .bind (declares_exec hcalls update).keepsOuter fun _ => (Declares.pure _).keepsOuter
    exact .bind (eng.keepsNames_tellStatement _) fun _ => KeepsOuter.nested <|
      .bind (declares_exec hcalls init).keepsOuter fun _ =>
        keepsOuter_rounds (eng.keepsNames_condition hcalls test) (keepsOuter_execBlock hcalls body).nested
          hupdate _
  | .returns value span => by
    rw [exec]
    exact .bind (eng.keepsNames_tellStatement _) fun _ =>
      .map (eng.keepsNames_returnValue hcalls value) _
  | .block body span => by
    rw [exec]
    exact .bind (eng.keepsNames_tellStatement _) fun _ => (keepsOuter_execBlock hcalls body).nested

/-- A block declares at its own level only. -/
theorem keepsOuter_execBlock (hcalls : calls.ScopeKept) :
    ∀ ss : List Stmt, KeepsOuter (eng.execBlock calls ss)
  | [] => by
    rw [execBlock]
    exact (Declares.pure _).keepsOuter
  | s :: rest => by
    rw [execBlock]
    refine .bind (declares_exec hcalls s).keepsOuter fun flow => ?_
    cases flow with
    | returned v => exact (Declares.pure _).keepsOuter
    | normal => exact keepsOuter_execBlock hcalls rest

end

end Calls

/-! ## Parameters -/

/-- As many parameters as there are arguments for become names. -/
theorem names_bindParameters (bindings : Bindings) (span : Span) : ∀ (ps : List Param)
    (vs : List (Variable F)) {m m' : Machine F},
    eng.bindParameters bindings span ps vs m = .ok () m' → vs.length = ps.length →
    m'.scope.context = m.scope.context ∧ m'.scope.names =
      (ps.map Param.name).foldl (fun names name => Scope.withName (some name) names) m.scope.names
  | [], [], _, _, h, _ => by
    cases h
    exact ⟨rfl, rfl⟩
  | p :: ps, v :: vs, m, m', h, hlength => by
    rw [bindParameters] at h
    obtain ⟨c, m₁, hclass, h⟩ := EvalM.ok_of_bind h
    obtain ⟨_, m₂, hdefine, h⟩ := EvalM.ok_of_bind h
    cases hdefine
    obtain ⟨hcontext, hnames⟩ := eng.keepsNames_register _ _ _ _ hclass
    obtain ⟨hcontext', hnames'⟩ :=
      names_bindParameters bindings span ps vs h (Nat.succ.inj hlength)
    refine ⟨hcontext'.trans hcontext, hnames'.trans ?_⟩
    rw [List.map_cons, List.foldl_cons]
    refine congrArg (List.foldl _ · _) ?_
    show (m₁.scope.define p.name _).names = _
    rw [Scope.names_define, hnames]
    rfl
  | [], _ :: _, _, _, _, hlength => nomatch hlength
  | _ :: _, [], _, _, _, hlength => nomatch hlength

end Engine

end Middleweight
