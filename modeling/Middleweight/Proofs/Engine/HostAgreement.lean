import Middleweight.Native.Standard
import Middleweight.Proofs.Engine.Agreement
import Middleweight.Proofs.Engine.Parts

/-!
# Native functions agree

A program of the host sees the engine through its requests only. So programs that make the same
requests, about corresponding classes, objects and values, and go on alike whatever the answers, are
carried out alike. The functions of the standard library are such programs.

* `EnginePair.agree_runHost` : programs that correspond are carried out alike
* `EnginePair.standard_respects` : the functions of the standard library
-/

namespace Middleweight

variable {F α β γ δ : Type}

namespace EnginePair

variable {P : EnginePair F} {W : Pairing} {g : List String}

/-- What is given to a native function on the two sides. -/
structure HostCalls (P : EnginePair F) (W : Pairing) (call call' : HostCall F) : Prop where
  cls : P.Classes call.cls call'.cls
  this : P.Values W call.this call'.this
  args : List.Forall₂ (P.Variables W) call.args call'.args
  span : call'.span = call.span

/-- Calls whose parts agree still do so as objects are made. -/
theorem HostCalls.mono {V : Pairing} (hW : W ≤ V) {call call' : HostCall F}
    (h : P.HostCalls W call call') : P.HostCalls V call call' :=
  ⟨h.cls, h.this.mono hW, variables_mono hW h.args, h.span⟩

/-- Programs that make corresponding requests, and end with related results or the same fault. -/
inductive HostPrograms (P : EnginePair F) (R : Pairing → α → β → Prop) :
    Pairing → HostProgram F α → HostProgram F β → Prop
  | done {W : Pairing} {a : α} {b : β} : R W a b → HostPrograms P R W (.done a) (.done b)
  | fail {W : Pairing} (fault : HostFault) : HostPrograms P R W (.fail fault) (.fail fault)
  | write {W : Pairing} (text : String) {p : HostProgram F α} {q : HostProgram F β} :
      (∀ V, W ≤ V → HostPrograms P R V p q) → HostPrograms P R W (.write text p) (.write text q)
  | classOf {W : Pairing} (ty : Ty) {p : RuntimeClass F → HostProgram F α}
      {q : RuntimeClass F → HostProgram F β} :
      (∀ V, W ≤ V → ∀ c c', P.Classes c c' → HostPrograms P R V (p c) (q c')) →
      HostPrograms P R W (.classOf ty p) (.classOf ty q)
  | allocate {W : Pairing} {c c' : RuntimeClass F} {p : ObjectRef F → HostProgram F α}
      {q : ObjectRef F → HostProgram F β} : P.Classes c c' →
      (∀ V, W ≤ V → ∀ o o', P.Objects V o o' → HostPrograms P R V (p o) (q o')) →
      HostPrograms P R W (.allocate c p) (.allocate c' q)
  | construct {W : Pairing} {c c' : RuntimeClass F} {args args' : List (Variable F)}
      {p : ObjectRef F → HostProgram F α} {q : ObjectRef F → HostProgram F β} : P.Classes c c' →
      List.Forall₂ (P.Variables W) args args' →
      (∀ V, W ≤ V → ∀ o o', P.Objects V o o' → HostPrograms P R V (p o) (q o')) →
      HostPrograms P R W (.construct c args p) (.construct c' args' q)
  | getState {W : Pairing} {o o' : ObjectRef F} {p : Option (HostState F) → HostProgram F α}
      {q : Option (HostState F) → HostProgram F β} : P.Objects W o o' →
      (∀ V, W ≤ V → ∀ s s', Option.Rel (P.HostStates V) s s' → HostPrograms P R V (p s) (q s')) →
      HostPrograms P R W (.getState o p) (.getState o' q)
  | setState {W : Pairing} {o o' : ObjectRef F} {s s' : HostState F} {p : HostProgram F α}
      {q : HostProgram F β} : P.Objects W o o' → P.HostStates W s s' →
      (∀ V, W ≤ V → HostPrograms P R V p q) →
      HostPrograms P R W (.setState o s p) (.setState o' s' q)
  | depth {W : Pairing} {p : Nat → HostProgram F α} {q : Nat → HostProgram F β} :
      (∀ V, W ≤ V → ∀ n, HostPrograms P R V (p n) (q n)) →
      HostPrograms P R W (.depth p) (.depth q)

/-- Programs that agree go on to programs that agree. -/
theorem HostPrograms.bind {R : Pairing → α → β → Prop} {S : Pairing → γ → δ → Prop}
    {p : HostProgram F α} {q : HostProgram F β} (h : P.HostPrograms R W p q)
    {f : α → HostProgram F γ} {f' : β → HostProgram F δ}
    (hf : ∀ V, W ≤ V → ∀ a b, R V a b → P.HostPrograms S V (f a) (f' b)) :
    P.HostPrograms S W (p >>= f) (q >>= f') := by
  show P.HostPrograms S W (p.bind f) (q.bind f')
  induction h with
  | done hr => exact hf _ (le_refl _) _ _ hr
  | fail fault => exact .fail fault
  | write text _ ih =>
    exact .write text fun V hV => ih V hV fun U hU => hf U (le_trans hV hU)
  | classOf ty _ ih =>
    exact .classOf ty fun V hV c c' hc => ih V hV c c' hc fun U hU => hf U (le_trans hV hU)
  | allocate hc _ ih =>
    exact .allocate hc fun V hV o o' ho => ih V hV o o' ho fun U hU => hf U (le_trans hV hU)
  | construct hc hargs _ ih =>
    exact .construct hc hargs fun V hV o o' ho =>
      ih V hV o o' ho fun U hU => hf U (le_trans hV hU)
  | getState ho _ ih =>
    exact .getState ho fun V hV s s' hs => ih V hV s s' hs fun U hU => hf U (le_trans hV hU)
  | setState ho hs _ ih =>
    exact .setState ho hs fun V hV => ih V hV fun U hU => hf U (le_trans hV hU)
  | depth _ ih => exact .depth fun V hV n => ih V hV n fun U hU => hf U (le_trans hV hU)

/-! ## Carrying programs out -/

variable [HostFunctions F]

/--
Reading a static field for the first time gives a new object without contents, whose class matches a
given one; unless the left engine runs out of its budget that may do so first.
-/
def MakesSpare (P : EnginePair F) (calls : Calls F) (owner : RuntimeClass F) (field : NativeField F)
    (span : Span) (c' : RuntimeClass F) (m : Machine F) : Prop :=
  (P.early = .left ∧
    ∃ m₁, P.left.initStatic calls owner field span m = .error .exhausted m₁) ∨
  ∃ c r, P.Classes c c' ∧ r.Valid P.left.table ∧
    P.left.initStatic calls owner field span m = .ok ⟨c, .object ⟨m.heap.size, c⟩⟩
      { m with
        registry := r
        heap := m.heap.push { fields := [] }
        statics := ((owner.name, field.name), ⟨c, .object ⟨m.heap.size, c⟩⟩) :: m.statics }

/-- Calls that agree. A static method is called without a receiver. -/
structure CallsAgree (P : EnginePair F) (calls calls' : Calls F) : Prop where
  rounds : P.Budgets calls.rounds calls'.rounds
  dispatch : ∀ {W g} {c c' : RuntimeClass F} {this this' : Value F} {args args' : List (Variable F)}
    (name : String) (isStatic : Bool) (argTypes : List Ty) (span : Span), P.Classes c c' →
    P.Values W this this' → (isStatic = true → this = .null) →
    List.Forall₂ (P.Variables W) args args' →
    P.Agree W g (fun V => Option.Rel (P.Variables V))
      (calls.dispatch c this name isStatic args argTypes span)
      (calls'.dispatch c' this' name isStatic args' argTypes span)
  construct : ∀ {W g} {c c' : RuntimeClass F} {args args' : List (Variable F)} (argTypes : List Ty)
    (span : Span), P.Classes c c' → List.Forall₂ (P.Variables W) args args' →
    P.Agree W g P.Objects (calls.construct c args argTypes span)
      (calls'.construct c' args' argTypes span)
  spare : ∀ {c c' owner : RuntimeClass F} {name : String} {field : NativeField F} {m : Machine F}
    (span : Span), P.left.table.Shows c →
    Engine.staticFieldOwner? c name c.layers = some (owner, field) →
    P.spare = some ((owner.name, field.name), c') → m.Remembers P.left.table →
    P.MakesSpare calls owner field span c' m

variable {calls calls' : Calls F}

/-- Carrying out programs that agree keeps machines in step: by induction on the agreement. -/
theorem agree_runHost (hcalls : P.CallsAgree calls calls') (span : Span)
    {R : Pairing → α → β → Prop} {p : HostProgram F α} {q : HostProgram F β}
    (h : P.HostPrograms R W p q) :
    P.Agree W g R (P.left.runHost calls span p) (P.right.runHost calls' span q) := by
  induction h with
  | done hr => exact Agree.pure hr
  | fail fault =>
    cases fault with
    | message text => exact Agree.invalid rfl span
    | nullDereference member => exact Agree.raise rfl span
  | write text _ ih =>
    refine Agree.bind (agree_write text) fun V hV e e' he => ?_
    cases he
    cases e with
    | none => exact ih V hV
    | some e => exact Agree.invalid rfl span
  | classOf ty _ ih =>
    exact Agree.bind (agree_classOf ty span) fun V hV c c' hc => ih V hV c c' hc
  | allocate hc _ ih =>
    exact Agree.bind (agree_allocate hc span) fun V hV o o' ho => ih V hV o o' ho
  | construct hc hargs _ ih =>
    rw [Engine.runHost, Engine.runHost, declaredTypes_eq hargs]
    exact Agree.bind (hcalls.construct _ span hc hargs) fun V hV o o' ho => ih V hV o o' ho
  | getState ho _ ih =>
    refine Agree.bind (agree_contents ho) fun V hV i i' hi => ih V hV _ _ ?_
    rcases rel_elim hi with ⟨rfl, rfl⟩ | ⟨x, x', rfl, rfl, hx⟩
    · exact .none
    · exact hx.host
  | setState ho hs _ ih =>
    refine Agree.bind (agree_modifyContents ho fun hi => ?_) fun V hV _ _ _ => ih V hV
    exact ⟨hi.fields, .some hs⟩
  | depth _ ih =>
    refine Agree.bind agree_depth fun V hV n n' hn => ?_
    cases hn
    exact ih V hV n

/-- The native functions make corresponding requests when they are called alike. -/
def HostRespects (P : EnginePair F) : Prop :=
  ∀ (f : F) (W : Pairing) (call call' : HostCall F), P.HostCalls W call call' →
    P.HostPrograms P.Values W (HostFunctions.perform f call) (HostFunctions.perform f call')

/-- The functions of the library are called alike on both sides. -/
theorem agree_callHost (hhost : P.HostRespects) (hcalls : P.CallsAgree calls calls') (f : F)
    {call call' : HostCall F} (hcall : P.HostCalls W call call') :
    P.Agree W g P.Values (P.left.callHost calls f call) (P.right.callHost calls' f call') := by
  unfold Engine.callHost
  rw [hcall.span]
  exact agree_runHost hcalls call.span (hhost f W call call' hcall)

end EnginePair

/-! ## Arguments of native functions -/

/-- Objects with the items that they keep. -/
def EnginePair.Keepers (P : EnginePair F) (W : Pairing)
    (a b : ObjectRef F × List (Variable F)) : Prop :=
  P.Objects W a.1 b.1 ∧ List.Forall₂ (P.Variables W) a.2 b.2

namespace EnginePair.HostCalls

variable {P : EnginePair F} {W : Pairing} {call call' : HostCall F} (h : P.HostCalls W call call')

include h

/-- An argument is there on both sides or on neither. -/
theorem arg (i : Nat) : P.HostPrograms P.Variables W (call.arg i) (call'.arg i) := by
  unfold HostCall.arg
  rcases rel_elim (forall₂_getElem? h.args i) with ⟨h1, h2⟩ | ⟨v, v', h1, h2, hv⟩
  · rw [h1, h2]
    exact .fail _
  · rw [h1, h2]
    exact .done hv

theorem intArg (i : Nat) : P.HostPrograms Same W (call.intArg i) (call'.intArg i) := by
  refine (h.arg i).bind fun V _ ⟨c, v⟩ ⟨c', v'⟩ ⟨_, hv⟩ => ?_
  have htext : v'.text = v.text := hv.text_eq
  change P.Values V v v' at hv
  cases hv with
  | int n => exact .done rfl
  | _ => dsimp only; rw [htext]; exact .fail _

theorem floatArg (i : Nat) : P.HostPrograms Same W (call.floatArg i) (call'.floatArg i) := by
  refine (h.arg i).bind fun V _ ⟨c, v⟩ ⟨c', v'⟩ ⟨_, hv⟩ => ?_
  have htext : v'.text = v.text := hv.text_eq
  change P.Values V v v' at hv
  cases hv with
  | float x => exact .done rfl
  | _ => dsimp only; rw [htext]; exact .fail _

theorem boolArg (i : Nat) : P.HostPrograms Same W (call.boolArg i) (call'.boolArg i) := by
  refine (h.arg i).bind fun V _ ⟨c, v⟩ ⟨c', v'⟩ ⟨_, hv⟩ => ?_
  have htext : v'.text = v.text := hv.text_eq
  change P.Values V v v' at hv
  cases hv with
  | bool b => exact .done rfl
  | _ => dsimp only; rw [htext]; exact .fail _

theorem strArg (i : Nat) : P.HostPrograms Same W (call.strArg i) (call'.strArg i) := by
  refine (h.arg i).bind fun V _ ⟨c, v⟩ ⟨c', v'⟩ ⟨_, hv⟩ => ?_
  have htext : v'.text = v.text := hv.text_eq
  change P.Values V v v' at hv
  cases hv with
  | str s => exact .done rfl
  | null => exact .fail _
  | _ => dsimp only; rw [htext]; exact .fail _

theorem thisStr : P.HostPrograms Same W call.thisStr call'.thisStr := by
  unfold HostCall.thisStr
  have htext := h.this.text_eq
  have hthis := h.this
  generalize call.this = v, call'.this = v' at hthis htext
  cases hthis with
  | str s => exact .done rfl
  | _ => dsimp only; rw [htext]; exact .fail _

theorem receiver : P.HostPrograms P.Objects W call.receiver call'.receiver := by
  unfold HostCall.receiver
  have htext := h.this.text_eq
  have hthis := h.this
  generalize call.this = v, call'.this = v' at hthis htext
  cases hthis with
  | object ho => exact .done ho
  | _ => dsimp only; rw [htext]; exact .fail _

/-- The receiver and the items it keeps. -/
theorem items : P.HostPrograms P.Keepers W call.items call'.items := by
  refine h.receiver.bind fun V _ o o' ho => .getState ho fun U hU s s' hs => ?_
  have hfail : P.HostPrograms P.Keepers U (HostCall.uninitialized o)
      (HostCall.uninitialized o') := by
    unfold HostCall.uninitialized
    rw [ho.cls.text_eq]
    exact .fail _
  rcases rel_elim hs with ⟨rfl, rfl⟩ | ⟨x, x', rfl, rfl, hx⟩
  · exact hfail
  · cases hx with
    | items hxs => exact .done ⟨ho.mono hU, hxs⟩
    | count n => exact hfail

end EnginePair.HostCalls

/-! ## The standard library -/

namespace EnginePair

variable {P : EnginePair F} {W : Pairing}

/-- Equality with a paired value holds for the same items. -/
theorem any_equals_eq {xs xs' : List (Variable F)} (h : List.Forall₂ (P.Variables W) xs xs')
    {v v' : Value F} (hv : P.Values W v v') :
    (xs'.any fun x => x.value.equals v') = xs.any fun x => x.value.equals v := by
  induction h with
  | nil => rfl
  | cons hx _ ih => rw [List.any_cons, List.any_cons, ih, hx.value.equals_eq hv]

theorem forall₂_slice {xs xs' : List (Variable F)} (h : List.Forall₂ (P.Variables W) xs xs')
    (start stop : Nat) :
    List.Forall₂ (P.Variables W) (StandardFn.slice start stop xs)
      (StandardFn.slice start stop xs') :=
  List.forall₂_drop start (List.forall₂_take stop h)

theorem forall₂_set {xs xs' : List (Variable F)} (h : List.Forall₂ (P.Variables W) xs xs')
    {v v' : Variable F} (hv : P.Variables W v v') :
    ∀ i : Nat, List.Forall₂ (P.Variables W) (xs.set i v) (xs'.set i v') := by
  induction h with
  | nil => exact fun _ => .nil
  | cons hx hrest ih =>
    intro i
    cases i with
    | zero => exact .cons hv hrest
    | succ i => exact .cons hx (ih i)

theorem forall₂_eraseIdx {xs xs' : List (Variable F)} (h : List.Forall₂ (P.Variables W) xs xs') :
    ∀ i : Nat, List.Forall₂ (P.Variables W) (xs.eraseIdx i) (xs'.eraseIdx i) := by
  induction h with
  | nil => exact fun _ => .nil
  | cons hx hrest ih =>
    intro i
    cases i with
    | zero => exact hrest
    | succ i => exact .cons hx (ih i)

open StandardFn in
/-- The functions of the standard library make corresponding requests. -/
theorem hostPrograms_perform (f : StandardFn) {call call' : HostCall F}
    (h : P.HostCalls W call call') :
    P.HostPrograms P.Values W (perform f call) (perform f call') := by
  cases f with
  | stringLength =>
    refine h.thisStr.bind fun V _ s s' hs => ?_
    cases hs
    exact .done (.int _)
  | stringEquals =>
    refine h.thisStr.bind fun V hV s s' hs => ?_
    cases hs
    refine ((h.mono hV).arg 0).bind fun U _ ⟨c, v⟩ ⟨c', v'⟩ ⟨_, hv⟩ => ?_
    change P.Values U v v' at hv
    cases hv with
    | _ => exact .done (.bool _)
  | integerToString =>
    refine (h.intArg 0).bind fun V _ n n' hn => ?_
    cases hn
    exact .done (.str _)
  | integerParse =>
    refine (h.strArg 0).bind fun V _ s s' hs => ?_
    cases hs
    cases Text.readInt64? (Text.trim s.toList) with
    | some n => exact .done (.int n)
    | none => exact .fail _
  | floatToString =>
    refine (h.floatArg 0).bind fun V _ x x' hx => ?_
    cases hx
    exact .done (.str _)
  | floatParse =>
    refine (h.strArg 0).bind fun V _ s s' hs => ?_
    cases hs
    cases Text.readFloat? (Text.trim s.toList) with
    | some x => exact .done (.float x)
    | none => exact .fail _
  | booleanToString =>
    refine (h.boolArg 0).bind fun V _ b b' hb => ?_
    cases hb
    exact .done (.str _)
  | systemOut =>
    exact .classOf _ fun V _ c c' hc => .construct hc .nil fun U _ o o' ho => .done (.object ho)
  | print =>
    refine (h.strArg 0).bind fun V _ s s' hs => ?_
    cases hs
    exact .write _ fun U _ => .done .null
  | println =>
    refine (h.strArg 0).bind fun V _ s s' hs => ?_
    cases hs
    exact .write _ fun U _ => .done .null
  | newline => exact .write _ fun U _ => .done .null
  | listNew =>
    refine HostPrograms.bind (R := fun _ _ _ => True) ?_ fun V _ _ _ _ => .done .null
    exact h.receiver.bind fun V _ o o' ho => .setState ho (.items .nil) fun _ _ => .done trivial
  | listAdd =>
    refine (h.arg 0).bind fun V hV x x' hx => ?_
    refine (h.mono hV).items.bind fun U hU ⟨o, xs⟩ ⟨o', xs'⟩ ⟨ho, hxs⟩ => ?_
    exact .setState ho (.items (List.rel_append hxs (.cons (hx.mono hU) .nil)))
      fun _ _ => .done .null
  | listClear =>
    refine h.items.bind fun V _ ⟨o, xs⟩ ⟨o', xs'⟩ ⟨ho, _⟩ => ?_
    exact .setState ho (.items .nil) fun _ _ => .done .null
  | listContains =>
    refine (h.arg 0).bind fun V hV x x' hx => ?_
    refine (h.mono hV).items.bind fun U hU ⟨o, xs⟩ ⟨o', xs'⟩ ⟨_, hxs⟩ => ?_
    dsimp only
    rw [any_equals_eq hxs (hx.value.mono hU)]
    exact .done (.bool _)
  | listGet =>
    refine (h.intArg 0).bind fun V hV n n' hn => ?_
    cases hn
    refine (h.mono hV).items.bind fun U _ ⟨o, xs⟩ ⟨o', xs'⟩ ⟨_, hxs⟩ => ?_
    have hlen : xs'.length = xs.length := hxs.length_eq.symm
    dsimp only
    rw [hlen]
    cases position? n xs.length with
    | none => exact .fail _
    | some i =>
      rcases rel_elim (forall₂_getElem? hxs i) with ⟨h1, h2⟩ | ⟨x, x', h1, h2, hx⟩
      · simp only [Option.bind_some, h1, h2]
        exact .fail _
      · simp only [Option.bind_some, h1, h2]
        exact .done hx.value
  | listSize =>
    refine h.items.bind fun V _ ⟨o, xs⟩ ⟨o', xs'⟩ ⟨_, hxs⟩ => ?_
    have hlen : xs'.length = xs.length := hxs.length_eq.symm
    dsimp only
    rw [hlen]
    exact .done (.int _)
  | listSet =>
    refine (h.intArg 0).bind fun V hV n n' hn => ?_
    cases hn
    refine ((h.mono hV).arg 1).bind fun V₁ hV₁ y y' hy => ?_
    refine ((h.mono hV).mono hV₁).items.bind fun U hU ⟨o, xs⟩ ⟨o', xs'⟩ ⟨ho, hxs⟩ => ?_
    have hlen : xs'.length = xs.length := hxs.length_eq.symm
    dsimp only
    rw [hlen]
    cases position? n xs.length with
    | none => exact .fail _
    | some i =>
      rcases rel_elim (forall₂_getElem? hxs i) with ⟨h1, h2⟩ | ⟨x, x', h1, h2, hx⟩
      · simp only [h1, h2]
        exact .fail _
      · simp only [h1, h2]
        exact .setState ho (.items (forall₂_set hxs (hy.mono hU) i))
          fun _ hle => .done (hx.value.mono hle)
  | listSubList =>
    refine (h.intArg 0).bind fun V hV n n' hn => ?_
    cases hn
    refine ((h.mono hV).intArg 1).bind fun V₁ hV₁ k k' hk => ?_
    cases hk
    have h₁ := (h.mono hV).mono hV₁
    refine h₁.items.bind fun U hU ⟨o, xs⟩ ⟨o', xs'⟩ ⟨_, hxs⟩ => ?_
    have hlen : xs'.length = xs.length := hxs.length_eq.symm
    dsimp only
    rw [hlen]
    split
    · refine .allocate h₁.cls fun U' hU' p p' hp => ?_
      exact .setState hp (.items (variables_mono hU' (forall₂_slice hxs _ _)))
        fun _ hle => .done (.object (hp.mono hle))
    · exact .fail _
  | listRemove =>
    refine (h.intArg 0).bind fun V hV n n' hn => ?_
    cases hn
    refine (h.mono hV).items.bind fun U _ ⟨o, xs⟩ ⟨o', xs'⟩ ⟨ho, hxs⟩ => ?_
    have hlen : xs'.length = xs.length := hxs.length_eq.symm
    dsimp only
    rw [hlen]
    cases position? n xs.length with
    | none => exact .fail _
    | some i =>
      rcases rel_elim (forall₂_getElem? hxs i) with ⟨h1, h2⟩ | ⟨x, x', h1, h2, hx⟩
      · simp only [h1, h2]
        exact .fail _
      · simp only [h1, h2]
        exact .setState ho (.items (forall₂_eraseIdx hxs i)) fun _ hle => .done (hx.value.mono hle)
  | listIsEmpty =>
    refine h.items.bind fun V _ ⟨o, xs⟩ ⟨o', xs'⟩ ⟨_, hxs⟩ => ?_
    have hempty : xs'.isEmpty = xs.isEmpty := by cases hxs <;> rfl
    dsimp only
    rw [hempty]
    exact .done (.bool _)

/-- The functions of the standard library agree whatever the two engines are. -/
theorem standard_respects (P : EnginePair StandardFn) : P.HostRespects :=
  fun f _ _ _ h => hostPrograms_perform f h

end EnginePair

end Middleweight
