import Middleweight.Proofs.World.Activity

/-!
# Objects last

Whatever an engine does, the objects that there are stay, with the fields that they have and the
classes these are declared with. An activity that another one starts runs between the start and the
end of that one; so all moments of a run agree about the objects that they share with its end.

* `Engine.Built.lasting` : a computation leaves objects as they are declared
* `Leads.within`, `Reaches.within` : an activity runs inside the one that leads to it
-/

namespace Middleweight

variable {F α β : Type}

/-! ## Computations -/

/-- What there is when a computation starts is there when it ends, declared as it was. -/
def EvalM.Lasting (x : EvalM F α) : Prop := ∀ m, m.layouts <+: (finalMachine (x m)).layouts

theorem EvalM.Lasting.pure (a : α) : Lasting (Pure.pure a : EvalM F α) :=
  fun _ => List.prefix_refl _

/-- Two computations that last do so one after the other. -/
theorem EvalM.Lasting.bind {x : EvalM F α} {f : α → EvalM F β} (hx : Lasting x)
    (hf : ∀ a, Lasting (f a)) : Lasting (x >>= f) := by
  intro m
  have hx := hx m
  show _ <+: (finalMachine (EStateM.bind x f m)).layouts
  unfold EStateM.bind
  generalize x m = r at hx
  cases r with
  | ok a m₁ => exact hx.trans (hf a m₁)
  | error e m₁ => exact hx

/-- A change to an object that keeps its declared fields keeps every layout. -/
theorem EvalM.Lasting.modifyContents (o : ObjectRef F) {f : Instance F → Instance F}
    (hf : ∀ i, (f i).declared = i.declared) : Lasting (EvalM.modifyContents o f) :=
  fun m => (m.layouts_modify o.id hf).symm ▸ List.prefix_refl _

namespace Engine

variable (eng : Engine F)

theorem layouts_tell (event : Event) (m : Machine F) : (eng.tell event m).layouts = m.layouts := by
  unfold tell
  split <;> rfl

theorem layouts_pushFrame (frame : Frame) (m : Machine F) :
    (eng.pushFrame frame m).layouts = m.layouts :=
  layouts_tell eng (.enter frame) m

theorem layouts_popFrame (m : Machine F) : (eng.popFrame m).layouts = m.layouts := by
  unfold popFrame
  split
  · rfl
  · exact layouts_tell eng _ _

/-- A frame touches no object. -/
theorem layouts_withFrame (frame : Frame) (x : EvalM F α) (m : Machine F) :
    (finalMachine (eng.withFrame frame x m)).layouts =
      (finalMachine (x (eng.pushFrame frame m))).layouts := by
  unfold withFrame
  cases x (eng.pushFrame frame m) with
  | ok a m₁ => exact layouts_popFrame eng m₁
  | error e m₁ => exact layouts_popFrame eng m₁

/-- A scope touches no object. -/
theorem layouts_withScope (s : Scope F) (x : EvalM F α) (m : Machine F) :
    (finalMachine (EvalM.withScope s x m)).layouts =
      (finalMachine (x { m with scope := s })).layouts := by
  unfold EvalM.withScope
  dsimp only
  cases x { m with scope := s } <;> rfl

theorem layouts_nested (x : EvalM F α) (m : Machine F) :
    (finalMachine (EvalM.nested x m)).layouts =
      (finalMachine (x { m with scope := m.scope.push })).layouts := by
  unfold EvalM.nested
  cases x { m with scope := m.scope.push } <;> rfl

variable {eng}

/-- Every computation of an engine leaves objects as they are declared. -/
theorem Built.lasting {x : EvalM F α} (h : eng.Built x) : EvalM.Lasting x := by
  induction h with
  | pure | raise | exhausted | read => exact fun m => List.prefix_refl _
  | bind _ _ ihx ihf => exact ihx.bind ihf
  | change _ _ hlayouts => exact hlayouts
  | statement span =>
    intro m
    unfold tellStatement
    split
    · show m.layouts <+: (eng.tell (.statement span m.stack.length) m).layouts
      exact (layouts_tell eng _ m).symm ▸ List.prefix_refl _
    · exact List.prefix_refl _
  | withFrame frame _ ih =>
    intro m
    rw [layouts_withFrame, ← layouts_pushFrame eng frame m]
    exact ih _
  | withScope s _ ih =>
    intro m
    rw [layouts_withScope]
    exact ih { m with scope := s }
  | nested _ ih =>
    intro m
    rw [layouts_nested]
    exact ih { m with scope := m.scope.push }

end Engine

/-! ## Parts of computations -/

/--
A computation from one machine runs inside a computation from another one: what there is when the
outer one starts is there when the inner one starts, and what that leaves the outer one leaves.
-/
structure EvalM.Within (y : EvalM F β) (m' : Machine F) (x : EvalM F α) (m : Machine F) : Prop where
  starts : m.layouts <+: m'.layouts
  ends : (finalMachine (y m')).layouts <+: (finalMachine (x m)).layouts

namespace EvalM.Within

variable {eng : Engine F} {x : EvalM F α} {y : EvalM F β} {m m' : Machine F} {γ : Type}

theorem refl (x : EvalM F α) (m : Machine F) : Within x m x m :=
  ⟨List.prefix_refl _, List.prefix_refl _⟩

theorem trans {z : EvalM F γ} {m'' : Machine F} (h : Within z m'' y m') (h' : Within y m' x m) :
    Within z m'' x m :=
  ⟨h'.starts.trans h.starts, h.ends.trans h'.ends⟩

/-- The first part of a sequence. -/
theorem bind (h : Within y m' x m) {f : α → EvalM F γ} (hf : ∀ a, Lasting (f a)) :
    Within y m' (x >>= f) m where
  starts := h.starts
  ends := by
    have hends := h.ends
    show _ <+: (finalMachine (EStateM.bind x f m)).layouts
    unfold EStateM.bind
    generalize x m = r at hends
    cases r with
    | ok a m₁ => exact hends.trans (hf a m₁)
    | error e m₁ => exact hends

/-- The rest of a sequence whose first part ended well. -/
theorem after {f : α → EvalM F γ} {a : α} {m₁ : Machine F} (hx : Lasting x)
    (hok : x m = .ok a m₁) (h : Within y m' (f a) m₁) : Within y m' (x >>= f) m where
  starts := by
    have hx := hx m
    rw [hok] at hx
    exact hx.trans h.starts
  ends := by
    show _ <+: (finalMachine (EStateM.bind x f m)).layouts
    unfold EStateM.bind
    rw [hok]
    exact h.ends

theorem withFrame {frame : Frame} (h : Within y m' x (eng.pushFrame frame m)) :
    Within y m' (eng.withFrame frame x) m where
  starts := by
    rw [← Engine.layouts_pushFrame eng frame m]
    exact h.starts
  ends := by
    rw [Engine.layouts_withFrame]
    exact h.ends

theorem withScope {s : Scope F} (h : Within y m' x { m with scope := s }) :
    Within y m' (EvalM.withScope s x) m where
  starts := h.starts
  ends := by
    rw [Engine.layouts_withScope]
    exact h.ends

theorem nested (h : Within y m' x m.inner) : Within y m' (EvalM.nested x) m where
  starts := h.starts
  ends := by
    rw [Engine.layouts_nested]
    exact h.ends

/-- The inner computation may go on to give another result. -/
theorem of_bind (h : Within y m' x m) {g : β → EvalM F γ} (hg : ∀ b, ∃ c, g b = pure c) :
    Within (y >>= g) m' x m where
  starts := h.starts
  ends := by
    have hends := h.ends
    show (finalMachine (EStateM.bind y g m')).layouts <+: _
    unfold EStateM.bind
    generalize y m' = r at hends
    cases r with
    | ok b m₁ =>
      obtain ⟨c, hc⟩ := hg b
      dsimp only
      rw [hc]
      exact hends
    | error e m₁ => exact hends

/-- Both computations may go on to give other results. -/
theorem map {δ : Type} (h : Within y m' x m) (g : β → γ) (f : α → δ) :
    Within (do return g (← y)) m' (do return f (← x)) m where
  starts := h.starts
  ends := by
    have hends := (h.of_bind fun b => ⟨g b, rfl⟩).ends
    show _ <+: (finalMachine (EStateM.bind x _ m)).layouts
    unfold EStateM.bind
    generalize x m = r at hends
    cases r <;> exact hends

end EvalM.Within

/-! ## First parts of expressions and statements -/

open EvalM (Within)

namespace Engine

variable [HostFunctions F] {eng : Engine F} {calls : Calls F}

theorem constructBase_of_ne_nil {o : ObjectRef F} {isStaticView : Bool} {rest : List (Layer F)}
    (h : rest ≠ []) :
    eng.constructBase calls o isStaticView rest =
      some (eng.runConstructors calls o isStaticView rest) := by
  cases rest with
  | nil => exact absurd rfl h
  | cons => rfl

omit [HostFunctions F] in
theorem lasting_called (r : Option (Variable F)) (span : Span) :
    EvalM.Lasting (match r with
      | some v => pure v
      | none => do return (⟨← eng.classOf .object span, .null⟩ : Variable F)) := by
  cases r with
  | some v => exact .pure _
  | none => exact (Built.map (built_classOf _ span) _).lasting

/-- The part of an expression that is evaluated first is evaluated inside it. -/
theorem within_first (hcalls : calls.Built eng) {e e' : Expr}
    (he : e.first? = some e') (m : Machine F) :
    Within (eng.eval calls e') m (eng.eval calls e) m := by
  have hresult : ∀ span (x : Except (OperatorError F) (Value F)), EvalM.Lasting (do
      let value ← eng.operators span x
      eng.typedValue value span) := fun span x =>
    (Built.bind (.operators span x) fun v => built_typedValue v span).lasting
  cases e with
  | binary lhs op rhs span =>
    cases he
    rw [eval]
    exact .bind (.refl _ _) fun _ =>
      .bind (built_eval hcalls rhs).lasting fun _ => hresult span _
  | unary op operand span =>
    cases he
    rw [eval]
    exact .bind (.refl _ _) fun _ => hresult span _
  | step op before target span =>
    cases target with
    | field receiver field span' =>
      cases he
      rw [eval]
      refine .bind (.refl _ _) fun r => .bind (built_fieldValue hcalls _ _ _).lasting fun _ => ?_
      refine (Built.bind (.operators span _) fun v => ?_).lasting
      exact .bind (built_storeField _ _ _ _ _) fun _ => .pure _
    | _ => cases he
  | ternary condition a b span =>
    cases he
    rw [eval]
    refine .bind (.refl _ _) fun v => ?_
    split
    · exact (built_eval hcalls a).lasting
    · exact (built_eval hcalls b).lasting
    · exact (Built.invalid _ _).lasting
  | field receiver field span =>
    cases he
    rw [eval]
    exact .bind (.refl _ _) fun _ => (built_fieldValue hcalls _ _ _).lasting
  | call receiver method arguments span =>
    cases he
    rw [eval]
    refine .bind (.refl _ _) fun _ => .bind (built_evalAll hcalls arguments).lasting fun _ => ?_
    exact .bind (built_callMethod hcalls _ _ _ _ _).lasting fun r => lasting_called r span
  | group e span =>
    cases he
    rw [eval]
    exact .refl _ _
  | _ => cases he

theorem built_execUpdate (hcalls : calls.Built eng) (u : Option Stmt) :
    eng.Built (eng.execUpdate calls u) := by
  cases u with
  | none => exact .pure _
  | some s => exact .map (built_exec hcalls s) _

theorem built_loop (hcalls : calls.Built eng) (test : Expr)
    (body : List Stmt) (u : Option Stmt) (n : Nat) : eng.Built (eng.loop calls test body u n) :=
  built_rounds (built_condition hcalls test)
    (.nested (built_execBlock hcalls body)) (built_execUpdate hcalls u) n

/-- What is left of a loop once the body of a round has ended. -/
def afterBody (eng : Engine F) (calls : Calls F) (test : Expr) (body : List Stmt)
    (u : Option Stmt) (n : Nat) : Flow F → EvalM F (Flow F)
  | .returned v => return .returned v
  | .normal => do
    eng.execUpdate calls u
    eng.loop calls test body u n

/-- What is left of a loop once a condition has been tested. -/
def afterTest (eng : Engine F) (calls : Calls F) (test : Expr) (body : List Stmt)
    (u : Option Stmt) (n : Nat) (holds : Bool) : EvalM F (Flow F) :=
  if holds then
    EvalM.nested (eng.execBlock calls body) >>= eng.afterBody calls test body u n
  else return .normal

/-- A round of a loop is its test and what follows it. -/
theorem loop_succ (calls : Calls F) (test : Expr) (body : List Stmt) (u : Option Stmt)
    (n : Nat) :
    eng.loop calls test body u (n + 1) =
      eng.condition calls test >>= eng.afterTest calls test body u n := by
  unfold loop
  rw [rounds]
  refine congrArg (eng.condition calls test >>= ·) (funext fun b => ?_)
  cases b with
  | false => rfl
  | true =>
    refine congrArg (EvalM.nested (eng.execBlock calls body) >>= ·) (funext fun flow => ?_)
    cases flow <;> rfl

/-- What follows the body of a round makes objects and changes none of those that there are. -/
theorem lasting_afterBody (hcalls : calls.Built eng) (test : Expr)
    (body : List Stmt) (u : Option Stmt) (n : Nat) (flow : Flow F) :
    EvalM.Lasting (eng.afterBody calls test body u n flow) := by
  cases flow with
  | returned v => exact .pure _
  | normal =>
    exact (built_execUpdate hcalls u).lasting.bind fun _ =>
      (built_loop hcalls test body u n).lasting

theorem lasting_afterTest (hcalls : calls.Built eng) (test : Expr)
    (body : List Stmt) (u : Option Stmt) (n : Nat) (holds : Bool) :
    EvalM.Lasting (eng.afterTest calls test body u n holds) := by
  cases holds with
  | false => exact .pure _
  | true =>
    exact (Built.nested (built_execBlock hcalls body)).lasting.bind
      (lasting_afterBody hcalls test body u n)

/-- A condition starts with its expression. -/
theorem within_condition (e : Expr) (m : Machine F) :
    Within (eng.eval calls e) m (eng.condition calls e) m := by
  refine .bind (.refl _ _) fun v => ?_
  split
  · exact .pure _
  · exact (Built.invalid _ _).lasting

/-- The expression of a statement that is evaluated first is evaluated inside it. -/
theorem within_firstValue (hcalls : calls.Built eng) {s : Stmt} {e : Expr}
    (he : s.first? = some e) {m m₁ : Machine F} (htell : eng.tellStatement s.span m = .ok () m₁) :
    Within (eng.eval calls e) m₁ (eng.exec calls s) m := by
  cases s with
  | assign target op e' span =>
    cases he
    rw [exec]
    refine .after (Built.statement _).lasting htell
      (.bind (.bind (.refl _ _) fun v => ?_) fun _ => .pure _)
    refine .bind (built_combine op (.map (built_lookup target) _) _ span).lasting fun v => ?_
    exact (built_store target v).lasting
  | fieldAssign receiver field op e' span =>
    cases he
    rw [exec]
    refine .after (Built.statement _).lasting htell
      (.bind (.bind (.refl _ _) fun r => ?_) fun _ => .pure _)
    exact .bind (built_eval hcalls e').lasting fun v => (built_storeField _ _ _ _ _).lasting
  | expression e' span =>
    cases he
    rw [exec]
    exact .after (Built.statement _).lasting htell (.bind (.refl _ _) fun _ => .pure _)
  | ifElse test body other span =>
    cases he
    cases other with
    | none =>
      rw [exec]
      refine .after (Built.statement _).lasting htell
        (.bind (within_condition _ _) fun b => ?_)
      cases b with
      | true => exact (Built.nested (built_execBlock hcalls body)).lasting
      | false => exact .pure _
    | some other =>
      rw [exec]
      refine .after (Built.statement _).lasting htell
        (.bind (within_condition _ _) fun b => ?_)
      cases b with
      | true => exact (Built.nested (built_execBlock hcalls body)).lasting
      | false => exact (Built.nested (built_execBlock hcalls other)).lasting
  | returns value span =>
    cases value with
    | none => cases he
    | some e' =>
      cases he
      rw [exec]
      exact .after (Built.statement _).lasting htell
        (.bind (.bind (.refl _ _) fun _ => .pure _) fun _ => .pure _)
  | _ => cases he

omit [HostFunctions F] in
theorem lasting_returned (returnType : Option Ty) (result : Option (Value F)) (bindings : Bindings)
    (span : Span) : EvalM.Lasting (match returnType, result with
      | some ty, some value => do
        let c ← eng.classOf (ty.substitute bindings) span
        return some (⟨c, value⟩ : Variable F)
      | _, _ => return none) := by
  split
  · exact (Built.map (built_classOf _ span) _).lasting
  · exact .pure _

theorem lasting_block (hcalls : calls.Built eng) (body : List Stmt) :
    EvalM.Lasting (do let _ ← eng.execBlock calls body) :=
  (Built.map (built_execBlock hcalls body) _).lasting

theorem lasting_bodyValue (hcalls : calls.Built eng) (body : List Stmt) : EvalM.Lasting (do
    match ← eng.execBlock calls body with
    | .returned v => return v.map Variable.value
    | .normal => return none) := by
  refine .bind (built_execBlock hcalls body).lasting fun flow => ?_
  cases flow <;> exact .pure _

end Engine

/-! ## Activities -/

section Activities

open Engine

variable [HostFunctions F] {eng : Engine F}

/-- An activity runs inside the one that leads to it. -/
theorem Leads.within {M N : Moment F} (h : Leads eng M N) :
    Within (N.activity.perform eng N.depth) N.machine (M.activity.perform eng M.depth)
      M.machine := by
  have hcalls := Calls.built_atDepth eng
  -- One case for each place from which an activity is entered: what comes before it has ended in its
  -- machine, and what comes after it is put together from the steps of the engine.
  cases h with
  | run hentry =>
    refine .map (.bind (.withFrame ?_) fun _ => .pure _) _ _
    rw [hentry]
    refine .bind (.of_bind (.refl _ _) fun r => ?_) fun _ => (eng.built_flush).lasting
    cases r <;> exact ⟨_, rfl⟩
  | callStatic hresolve hview =>
    refine .map (.bind ?_ fun r => ?_) _ _
    · unfold Engine.callStatic
      rw [hresolve]
      exact .after (built_staticView _ _).lasting hview (.refl _ _)
    · cases r <;> exact .pure _
  | construct => exact .map (.bind (.refl _ _) fun _ => .pure _) _ _
  | call hresolve =>
    refine .map ?_ _ _
    show Within _ _ (eng.dispatch _ _ _ _ _ _ _ _) _
    unfold dispatch
    rw [hresolve]
    exact .refl _ _
  | methodNative hbody =>
    refine .map (.withFrame (.bind ?_ fun r => lasting_returned _ _ _ _)) _ _
    unfold methodValue
    rw [hbody]
    exact .bind (.refl _ _) fun _ => .pure _
  | methodParameters hbody =>
    refine .map (.withFrame (.bind ?_ fun r => lasting_returned _ _ _ _)) _ _
    unfold methodValue
    rw [hbody]
    exact .withScope (.bind (.refl _ _) fun _ => lasting_bodyValue (hcalls _) _)
  | methodBody hbody hbind =>
    refine .map (.withFrame (.bind ?_ fun r => lasting_returned _ _ _ _)) _ _
    unfold methodValue
    rw [hbody]
    refine .withScope (.after (built_bindParameters _ _ _ _).lasting hbind ?_)
    exact .bind (.refl _ _) fun flow => by cases flow <;> exact .pure _
  | nextParameter hclass =>
    refine .map ?_ _ _
    rw [bindParameters]
    exact .after (built_classOf _ _).lasting hclass
      (.after (fun _ => List.prefix_refl _) rfl (.refl _ _))
  | construction hallocate =>
    refine .map ?_ _ _
    exact .after (built_allocate _ _).lasting hallocate (.bind (.refl _ _) fun _ => .pure _)
  | constructor hresolve =>
    refine .map ?_ _ _
    rw [runConstructors]
    dsimp only
    rw [hresolve]
    exact .refl _ _
  | defaultConstructor hresolve =>
    refine .map ?_ _ _
    rw [runConstructors]
    dsimp only
    rw [hresolve]
    exact .refl _ _
  | constructorNative hbody =>
    refine .map (.withFrame ?_) _ _
    rw [hbody]
    exact .bind (.refl _ _) fun _ => .pure _
  | @constructorParameters n s o isStaticView rest args span m body superArguments hbody =>
    refine .map (.withFrame ?_) _ _
    rw [hbody]
    refine .withScope (.bind (.refl _ _) fun _ => ?_)
    by_cases hrest : rest = []
    · subst hrest
      exact lasting_block (hcalls _) _
    · rw [constructBase_of_ne_nil hrest]
      refine .bind (built_evalAll (hcalls _) _).lasting fun _ => ?_
      exact .bind (built_runConstructors (hcalls _) _ _ _ _ _ _).lasting fun _ =>
        lasting_block (hcalls _) _
  | superArguments hbody hrest hbind =>
    refine .bind (.withFrame ?_) fun _ => .pure _
    rw [hbody, constructBase_of_ne_nil hrest]
    refine .withScope (.after (built_bindParameters _ _ _ _).lasting hbind ?_)
    refine .bind (.refl _ _) fun _ => ?_
    exact .bind (built_runConstructors (hcalls _) _ _ _ _ _ _).lasting fun _ =>
      lasting_block (hcalls _) _
  | baseConstructors hbody hrest hbind heval =>
    refine .map (.withFrame ?_) _ _
    rw [hbody, constructBase_of_ne_nil hrest]
    refine .withScope (.after (built_bindParameters _ _ _ _).lasting hbind ?_)
    refine .after (built_evalAll (hcalls _) _).lasting heval ?_
    exact .bind (.refl _ _) fun _ =>
      lasting_block (hcalls _) _
  | derivedBody hbody hrest hbind heval hbase =>
    refine .map (.withFrame ?_) _ _
    rw [hbody, constructBase_of_ne_nil hrest]
    refine .withScope (.after (built_bindParameters _ _ _ _).lasting hbind ?_)
    refine .after (built_evalAll (hcalls _) _).lasting heval ?_
    refine .after (built_runConstructors (hcalls _) _ _ _ _ _ _).lasting hbase ?_
    exact .bind (.refl _ _) fun _ => .pure _
  | rootBody hbody hbind =>
    refine .map (.withFrame ?_) _ _
    rw [hbody]
    refine .withScope (.after (built_bindParameters _ _ _ _).lasting hbind ?_)
    exact .bind (.refl _ _) fun _ => .pure _
  | hostWrite hwrite =>
    refine .map ?_ _ _
    rw [runHost]
    exact .after (built_write _).lasting hwrite (.refl _ _)
  | hostClass hclass =>
    refine .map ?_ _ _
    rw [runHost]
    exact .after (built_classOf _ _).lasting hclass (.refl _ _)
  | hostAllocate hallocate =>
    refine .map ?_ _ _
    rw [runHost]
    exact .after (built_allocate _ _).lasting hallocate (.refl _ _)
  | hostConstruct =>
    refine .map ?_ _ _
    rw [runHost]
    exact .bind (.refl _ _) fun _ => (built_runHost (hcalls _) _ _).lasting
  | hostConstructed hconstruct =>
    refine .map ?_ _ _
    rw [runHost]
    exact .after ((hcalls _).construct _ _ _ _).lasting hconstruct (.refl _ _)
  | hostRead =>
    refine .map ?_ _ _
    rw [runHost]
    exact .after (fun _ => List.prefix_refl _) rfl (.refl _ _)
  | hostKeep =>
    refine .map ?_ _ _
    rw [runHost]
    refine .after (.modifyContents _ ?_) rfl (.refl _ _)
    exact fun _ => rfl
  | hostDepth =>
    refine .map ?_ _ _
    rw [runHost]
    exact .after (fun _ => List.prefix_refl _) rfl (.refl _ _)
  | staticField howner hread hlower hclass =>
    refine .map ?_ _ _
    rw [staticField_eq _ _ howner]
    refine .after (fun _ => List.prefix_refl _) rfl ?_
    rw [hread]
    refine .after (Built.types _).lasting (by rw [hlower]; rfl) ?_
    refine .after (built_classOf _ _).lasting hclass (.bind (.refl _ _) fun _ => ?_)
    exact .bind (fun _ => List.prefix_refl _) fun _ => .pure _
  | first he => exact .map (within_first (hcalls _) he _) _ _
  | right heval =>
    refine .map ?_ _ _
    rw [eval]
    refine .after (built_eval (hcalls _) _).lasting heval (.bind (.refl _ _) fun _ => ?_)
    exact (Built.bind (.operators _ _) fun v => built_typedValue v _).lasting
  | steppedStatic heval =>
    refine .map ?_ _ _
    rw [eval]
    refine .after (built_eval (hcalls _) _).lasting heval (.bind (.refl _ _) fun _ => ?_)
    refine (Built.bind (.operators _ _) fun v => ?_).lasting
    exact .bind (built_storeField _ _ _ _ _) fun _ => .pure _
  | thenValue heval =>
    refine .map ?_ _ _
    rw [eval]
    exact .after (built_eval (hcalls _) _).lasting heval (.refl _ _)
  | elseValue heval =>
    refine .map ?_ _ _
    rw [eval]
    exact .after (built_eval (hcalls _) _).lasting heval (.refl _ _)
  | newArguments hty =>
    refine .bind ?_ fun _ => .pure _
    rw [eval]
    refine .after (built_resolveType _).lasting hty (.bind (.refl _ _) fun _ => ?_)
    exact (Built.map ((hcalls _).construct _ _ _ _) _).lasting
  | newObject hty heval =>
    refine .map ?_ _ _
    rw [eval]
    refine .after (built_resolveType _).lasting hty ?_
    exact .after (built_evalAll (hcalls _) _).lasting heval (.bind (.refl _ _) fun _ => .pure _)
  | fieldStatic heval =>
    refine .map ?_ _ _
    rw [eval]
    exact .after (built_eval (hcalls _) _).lasting heval (.refl _ _)
  | callArguments heval =>
    refine .bind ?_ fun _ => .pure _
    rw [eval]
    refine .after (built_eval (hcalls _) _).lasting heval (.bind (.refl _ _) fun _ => ?_)
    exact .bind (built_callMethod (hcalls _) _ _ _ _ _).lasting fun _ => lasting_called _ _
  | callMethod heval hargs htarget =>
    refine .map ?_ _ _
    rw [eval]
    refine .after (built_eval (hcalls _) _).lasting heval ?_
    refine .after (built_evalAll (hcalls _) _).lasting hargs (.bind ?_ fun _ => lasting_called _ _)
    exact .after (built_callTarget _ _ _).lasting htarget (.refl _ _)
  | castValue hty =>
    refine .map ?_ _ _
    rw [eval]
    exact .after (built_resolveType _).lasting hty (.bind (.refl _ _) fun _ => .pure _)
  | instanceValue hty =>
    refine .map ?_ _ _
    rw [eval]
    refine .after (built_resolveType _).lasting hty (.bind (.refl _ _) fun _ => ?_)
    exact (built_typedValue _ _).lasting
  | headExpression =>
    refine .of_bind ?_ fun _ => ⟨_, rfl⟩
    show Within _ _ (eng.evalAll _ _) _
    rw [evalAll]
    exact .bind (.refl _ _) fun _ => (Built.map (built_evalAll (hcalls _) _) _).lasting
  | tailExpressions heval =>
    show Within _ _ (eng.evalAll _ _) _
    rw [evalAll]
    refine .after (built_eval (hcalls _) _).lasting heval (.bind (.refl _ _) fun _ => .pure _)
  | firstValue he htell => exact .map (within_firstValue (hcalls _) he htell) _ _
  | initialValue htell hty =>
    refine .map ?_ _ _
    rw [exec]
    refine .after (Built.statement _).lasting htell ?_
    refine .after (built_resolveType _).lasting hty ?_
    exact .bind (.bind (.refl _ _) fun _ => .pure _) fun _ =>
      .bind (fun _ => List.prefix_refl _) fun _ => .pure _
  | fieldAssignValue htell heval =>
    refine .map ?_ _ _
    rw [exec]
    refine .after (Built.statement _).lasting htell (.bind ?_ fun _ => .pure _)
    refine .after (built_eval (hcalls _) _).lasting heval (.bind (.refl _ _) fun _ => ?_)
    exact (built_storeField _ _ _ _ _).lasting
  | @thenBranch span m m₁ n test m₂ body other htell htest =>
    refine .map ?_ _ _
    cases other
    all_goals
      rw [exec]
      refine .after (Built.statement _).lasting htell ?_
      exact .after (built_condition (hcalls _) _).lasting htest (.nested (.refl _ _))
  | elseBranch htell htest =>
    refine .map ?_ _ _
    rw [exec]
    refine .after (Built.statement _).lasting htell ?_
    exact .after (built_condition (hcalls _) _).lasting htest (.nested (.refl _ _))
  | whileRounds htell =>
    refine .map ?_ _ _
    rw [exec]
    exact .after (Built.statement _).lasting htell (.refl _ _)
  | forInit htell =>
    refine .map ?_ _ _
    rw [exec]
    refine .after (Built.statement _).lasting htell (.nested (.bind (.refl _ _) fun _ => ?_))
    exact (built_loop (hcalls _) _ _ (some _) _).lasting
  | forRounds htell hinit =>
    refine .map ?_ _ _
    rw [exec]
    refine .after (Built.statement _).lasting htell (.nested ?_)
    exact .after (built_exec (hcalls _) _).lasting hinit (.refl _ _)
  | block htell =>
    refine .map ?_ _ _
    rw [exec]
    exact .after (Built.statement _).lasting htell (.nested (.refl _ _))
  | headStatement =>
    refine .map ?_ _ _
    rw [execBlock]
    refine .bind (.refl _ _) fun flow => ?_
    cases flow with
    | returned v => exact .pure _
    | normal => exact (built_execBlock (hcalls _) _).lasting
  | tailStatements hexec =>
    refine .map ?_ _ _
    rw [execBlock]
    exact .after (built_exec (hcalls _) _).lasting hexec (.refl _ _)
  | test =>
    refine .map ?_ _ _
    rw [loop_succ]
    exact .bind (within_condition _ _) fun b => lasting_afterTest (hcalls _) _ _ _ _ b
  | round htest =>
    refine .map ?_ _ _
    rw [loop_succ]
    refine .after (built_condition (hcalls _) _).lasting htest ?_
    exact .bind (.nested (.refl _ _)) fun flow => lasting_afterBody (hcalls _) _ _ _ _ flow
  | update htest hbody =>
    refine .map ?_ _ _
    rw [loop_succ]
    refine .after (built_condition (hcalls _) _).lasting htest ?_
    refine .after (Built.nested (built_execBlock (hcalls _) _)).lasting hbody ?_
    exact .bind (.bind (.refl _ _) fun _ => .pure _) fun _ =>
      (built_loop (hcalls _) _ _ _ _).lasting
  | again htest hbody hupdate =>
    refine .map ?_ _ _
    rw [loop_succ]
    refine .after (built_condition (hcalls _) _).lasting htest ?_
    refine .after (Built.nested (built_execBlock (hcalls _) _)).lasting hbody ?_
    exact .after (built_execUpdate (hcalls _) _).lasting hupdate (.refl _ _)

/-- Every activity is put together from the steps of the engine. -/
theorem Activity.built_perform (eng : Engine F) (a : Activity F) (n : Nat) :
    eng.Built (a.perform eng n) := by
  have hcalls := Calls.built_atDepth eng n
  cases a with
  | operation op => exact .map (op.built_perform eng) _
  | call c this name isStatic args argTypes span => exact .map (hcalls.dispatch _ _ _ _ _ _ _) _
  | method s this args span => exact .map (built_invoke hcalls s this args span) _
  | construction c args argTypes span => exact .map (hcalls.construct _ _ _ _) _
  | constructors o isStaticView layers args argTypes span =>
    exact .map (built_runConstructors hcalls _ _ _ _ _ _) _
  | constructor s o isStaticView rest args span =>
    refine .map (built_runConstructor hcalls s o args span fun construct hc => ?_) _
    unfold constructBase at hc
    split at hc
    · cases hc
    · cases hc
      exact built_runConstructors hcalls _ _ _
  | parameters bindings params args span =>
    exact .map (built_bindParameters bindings span params args) _
  | host program span => exact .map (built_runHost hcalls span program) _
  | staticField c name span => exact .map (built_staticField hcalls c name span) _
  | expression e => exact .map (built_eval hcalls e) _
  | expressions es => exact built_evalAll hcalls es
  | statement s => exact .map (built_exec hcalls s) _
  | statements ss => exact .map (built_execBlock hcalls ss) _
  | rounds test body u k => exact .map (built_loop hcalls test body u k) _

/-- An activity runs inside any one that reaches it. -/
theorem Reaches.within {M N : Moment F} (h : Reaches eng M N) :
    Within (N.activity.perform eng N.depth) N.machine (M.activity.perform eng M.depth)
      M.machine := by
  induction h with
  | refl => exact .refl _ _
  | tail _ hstep ih => exact hstep.within.trans ih

end Activities

end Middleweight
