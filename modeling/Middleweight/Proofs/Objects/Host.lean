import Middleweight.Proofs.Objects.Names

/-!
# Native functions on objects

The functions of the standard library give what their classes declare. Most give a value of a kind,
whatever they are called with. The functions of lists keep items that suit the argument of the list,
and so give such items, other lists of the same class, or again values of a kind.

* `StandardFn.careful_perform` : what the functions do
* `Engine.gives_runHost` : carrying it out
* `Program.WellTyped.suits_result` : what is declared is what is given
-/

namespace Middleweight

open NativeRegistry (standard)

variable {F α β : Type}

/-! ## Programs of the host -/

/-- What an object of a class may keep: items that suit each argument of the class. -/
def HostState.Suits (t : ClassTable F) (c : RuntimeClass F) : HostState F → Prop
  | .items xs => ∀ x ∈ xs, ∀ item ∈ c.ty.args, x.value.Suits t item
  | .count _ => True

/-- What an object keeps suits its class. -/
theorem Instance.Suits.hostState {t : ClassTable F} {c : RuntimeClass F} {i : Instance F}
    (h : i.Suits t c) {s : HostState F} (hs : i.host = some s) : s.Suits t c := by
  cases s with
  | items xs => exact h.items xs hs
  | count _ => trivial

theorem Instance.Suits.setHost {t : ClassTable F} {c : RuntimeClass F} {i : Instance F}
    (h : i.Suits t c) {s : HostState F} (hs : s.Suits t c) :
    Instance.Suits t c { i with host := some s } := by
  cases s with
  | items xs => exact h.setItems hs
  | count _ => exact ⟨h.fields, fun xs hxs => nomatch hxs⟩

/-- A program that keeps in objects what suits them, and makes objects of formed types only. -/
inductive HostProgram.Careful (t : ClassTable F) (P : World F → α → Prop) :
    World F → HostProgram F α → Prop
  | done {W : World F} {a : α} : P W a → Careful t P W (.done a)
  | fail {W : World F} (fault : HostFault) : Careful t P W (.fail fault)
  | write {W : World F} (text : String) {next : HostProgram F α} :
      (∀ V, W.Grows V → Careful t P V next) → Careful t P W (.write text next)
  | allocate {W : World F} {c : RuntimeClass F} {next : ObjectRef F → HostProgram F α} :
      t.Makes c → c.asTy.Formed t.arity? [] →
      (∀ V o, W.Grows V → o.In V → o.cls = c → Careful t P V (next o)) →
      Careful t P W (.allocate c next)
  | getState {W : World F} {o : ObjectRef F} {next : Option (HostState F) → HostProgram F α} :
      o.In W →
      (∀ V s?, W.Grows V → (∀ s, s? = some s → s.Valid t V ∧ s.Suits t o.cls) →
        Careful t P V (next s?)) →
      Careful t P W (.getState o next)
  | setState {W : World F} {o : ObjectRef F} {s : HostState F} {next : HostProgram F α} :
      o.In W → o.cls.IsList → s.Valid t W → s.Suits t o.cls →
      (∀ V, W.Grows V → Careful t P V next) → Careful t P W (.setState o s next)

namespace HostProgram.Careful

variable {t : ClassTable F} {P : World F → α → Prop} {Q : World F → β → Prop} {W : World F}

theorem bind {x : HostProgram F α} (hx : x.Careful t P W) {f : α → HostProgram F β}
    (hf : ∀ V a, W.Grows V → P V a → (f a).Careful t Q V) : (x >>= f).Careful t Q W := by
  show (x.bind f).Careful t Q W
  induction hx with
  | done ha => exact hf _ _ (.refl _) ha
  | fail fault => exact .fail fault
  | write text _ ih =>
    exact .write text fun V hV => ih V hV fun U a hU => hf U a (hV.trans hU)
  | allocate hc hformed _ ih =>
    exact .allocate hc hformed fun V o hV ho hcls =>
      ih V o hV ho hcls fun U a hU => hf U a (hV.trans hU)
  | getState ho _ ih =>
    exact .getState ho fun V s hV hs => ih V s hV hs fun U a hU => hf U a (hV.trans hU)
  | setState ho hlist hs hsuits _ ih =>
    exact .setState ho hlist hs hsuits fun V hV => ih V hV fun U a hU => hf U a (hV.trans hU)

/-- A program that makes nothing keeps nothing either. -/
theorem of_plain {R : α → Prop} {x : HostProgram F α} (h : x.Plain R) (hP : ∀ V a, R a → P V a)
    (W : World F) : x.Careful t P W := by
  induction h generalizing W with
  | done ha => exact .done (hP W _ ha)
  | fail fault => exact .fail fault
  | write text _ ih => exact .write text fun V _ => ih V

end HostProgram.Careful

/-! ## What the functions give -/

/-- What a function gives: nothing, a value of a kind, an item, or another list. -/
inductive StandardFn.Result where
  | nothing
  | kind (k : Kind)
  | item
  | list
deriving DecidableEq

namespace StandardFn

/-- What each function gives. -/
def result : StandardFn → Result
  | listGet | listSet | listRemove => .item
  | listSubList => .list
  | listSize => .kind .int
  | listContains | listIsEmpty => .kind .boolean
  | f =>
    match f.resultKind? with
    | some k => .kind k
    | none => .nothing

/-- The place of the argument that a function puts into a list. -/
def itemPlace? : StandardFn → Option Nat
  | listAdd => some 0
  | listSet => some 1
  | _ => none

/-- A value that a function gives as a member of a class. -/
def Result.Holds (t : ClassTable F) (c : RuntimeClass F) (W : World F) (v : Value F) :
    Result → Prop
  | .nothing => True
  | .kind k => v.Valid t W ∧ v.HasKind t k
  | .item => v.Valid t W ∧ ∀ item ∈ c.ty.args, v.Suits t item
  | .list => v.Valid t W ∧ v.Suits t c.asTy

end StandardFn

/-- A call of a native function whose arguments suit its parameters. -/
structure HostCall.Typed (t : ClassTable F) (W : World F) (f : StandardFn) (call : HostCall F) :
    Prop where
  valid : call.Valid t True W f
  list : f.onList = true → call.cls.asTy.Formed t.arity? [] ∧
    ∀ o, call.this = .object o → o.cls = call.cls
  item : ∀ i, f.itemPlace? = some i → ∀ v, call.args[i]? = some v → ∀ item ∈ call.cls.ty.args,
    v.value.Suits t item

namespace HostCall.Typed

variable {t : ClassTable F} {W V : World F} {f : StandardFn} {call : HostCall F}

theorem mono (h : call.Typed t W f) (hW : W.Grows V) : call.Typed t V f :=
  ⟨h.valid.mono hW, h.list, h.item⟩

theorem arg (h : call.Typed t W f) (i : Nat) :
    (call.arg i).Careful t (fun V v => v.Passed t V ∧ call.args[i]? = some v) W := by
  unfold HostCall.arg
  split
  · next v hv => exact .done ⟨h.valid.args v (List.mem_of_getElem? hv), hv⟩
  · exact .fail _

/-- The receiver of a function of lists, which is a list of the class that the call names. -/
structure IsReceiver (t : ClassTable F) (call : HostCall F) (W : World F) (o : ObjectRef F) :
    Prop where
  object : o.In W
  cls : o.cls = call.cls
  isList : o.cls.IsList
  makes : t.Makes call.cls
  formed : call.cls.asTy.Formed t.arity? []

theorem receiverObject (h : call.Typed t W f) (hf : f.onList = true) :
    call.receiver.Careful t (IsReceiver t call) W := by
  unfold HostCall.receiver
  split
  · next o ho =>
    have hthis := h.valid.this
    rw [ho] at hthis
    obtain ⟨hext, hcreates⟩ := h.valid.receiver o ho
    exact .done ⟨hthis, (h.list hf).2 o ho, h.valid.isList hf hext, hcreates.makes trivial,
      (h.list hf).1⟩
  · exact .fail _

/-- The receiver and the items it keeps. -/
structure Keeps (t : ClassTable F) (call : HostCall F) (W : World F)
    (r : ObjectRef F × List (Variable F)) : Prop where
  receiver : IsReceiver t call W r.1
  passed : ∀ x ∈ r.2, x.Passed t W
  suits : HostState.Suits t call.cls (.items r.2)

theorem keptItems (h : call.Typed t W f) (hf : f.onList = true) :
    call.items.Careful t (Keeps t call) W := by
  refine (h.receiverObject hf).bind fun V o hV ho => .getState ho.object fun U s? hU hs => ?_
  split
  · next xs =>
    obtain ⟨hvalid, hsuits⟩ := hs _ rfl
    rw [ho.cls] at hsuits
    exact .done ⟨⟨ho.object.mono hU, ho.cls, ho.isList, ho.makes, ho.formed⟩, hvalid, hsuits⟩
  · exact .fail _

/-- Other items that suit the receiver can be kept in it. -/
theorem Keeps.setState {r : ObjectRef F × List (Variable F)} (h : Keeps t call W r)
    {xs : List (Variable F)}
    (hxs : ∀ x ∈ xs, x.Passed t W ∧ ∀ item ∈ call.cls.ty.args, x.value.Suits t item)
    {P : World F → α → Prop} {next : HostProgram F α}
    (hnext : ∀ V, W.Grows V → next.Careful t P V) :
    (HostProgram.setState r.1 (.items xs) next).Careful t P W := by
  refine .setState h.receiver.object h.receiver.isList (fun x hx => (hxs x hx).1) ?_ hnext
  rw [h.receiver.cls]
  exact fun x hx => (hxs x hx).2

theorem Keeps.of_mem {r : ObjectRef F × List (Variable F)} (h : Keeps t call W r)
    {x : Variable F} (hx : x ∈ r.2) :
    x.Passed t W ∧ ∀ item ∈ call.cls.ty.args, x.value.Suits t item :=
  ⟨h.passed x hx, h.suits x hx⟩

/-- An item that is kept in a list is given as an item of it. -/
theorem Keeps.item {r : ObjectRef F × List (Variable F)} (h : Keeps t call W r)
    {x : Variable F} (hx : x ∈ r.2) (hW : W.Grows V) :
    StandardFn.Result.Holds t call.cls V x.value .item :=
  ⟨((h.of_mem hx).1.mono hW).value, (h.of_mem hx).2⟩

end HostCall.Typed

namespace StandardFn

open HostProgram

variable {t : ClassTable F} {W : World F}

/-- Functions that keep nothing give what they declare. -/
theorem holds_of_kind {f : StandardFn} (hf : f.isPlain = true) {v : Value F}
    (hv : ∀ k, f.resultKind? = some k → v.HasKind t k) (c : RuntimeClass F) (W : World F) :
    f.result.Holds t c W v := by
  have hvalid : ∀ {k : Kind}, k ≠ .printStream → v.HasKind t k → v.Valid t W := by
    intro k hk hkind
    cases hkind with
    | object => exact absurd rfl hk
    | _ => trivial
  cases f <;> first
    | exact absurd hf (by decide)
    | trivial
    | exact ⟨hvalid (by decide) (hv _ rfl), hv _ rfl⟩

/--
A function of the standard library keeps what suits, and gives what it declares. The one that gives
the output is left out, since it has no return type to keep: it stands for a static field.
-/
theorem careful_perform {t : ClassTable StandardFn} {W : World StandardFn} {f : StandardFn}
    {call : HostCall StandardFn} (h : call.Typed t W f) (hf : f ≠ systemOut) :
    (f.perform call).Careful t (fun V v => f.result.Holds t call.cls V v) W := by
  by_cases hplain : f.isPlain = true
  · exact .of_plain (plain_perform hplain call)
      (fun V v hv => holds_of_kind hplain hv call.cls V) W
  have hint : ∀ (i : Nat) (W : World StandardFn),
      (call.intArg i).Careful t (fun _ _ => True) W :=
    fun i W => .of_plain (call.plain_intArg i) (fun _ _ _ => trivial) W
  cases f with
  | listNew =>
    refine Careful.bind (P := fun _ _ => True) ?_ fun _ _ _ _ => .done trivial
    refine (h.receiverObject rfl).bind fun V o _ ho => ?_
    exact .setState ho.object ho.isList (fun _ hx => absurd hx List.not_mem_nil)
      (fun _ hx => absurd hx List.not_mem_nil) fun _ _ => .done trivial
  | listAdd =>
    refine (h.arg 0).bind fun V x hV hx => ?_
    refine ((h.mono hV).keptItems rfl).bind fun U r hU hr => hr.setState (fun y hy => ?_)
      fun _ _ => .done trivial
    rcases List.mem_append.mp hy with hy | hy
    · exact hr.of_mem hy
    · rw [List.mem_singleton.mp hy]
      exact ⟨hx.1.mono hU, h.item 0 rfl x hx.2⟩
  | listClear =>
    refine (h.keptItems rfl).bind fun V r _ hr => ?_
    exact hr.setState (fun _ hx => absurd hx List.not_mem_nil) fun _ _ => .done trivial
  | listContains =>
    refine (h.arg 0).bind fun V x hV _ => ?_
    exact ((h.mono hV).keptItems rfl).bind fun U r _ _ => .done ⟨trivial, .bool _⟩
  | listGet =>
    refine (hint 0 W).bind fun V n hV _ => ?_
    refine ((h.mono hV).keptItems rfl).bind fun U r _ hr => ?_
    dsimp only
    split
    · next x hx =>
      obtain ⟨i, -, hx⟩ := Option.bind_eq_some_iff.mp hx
      exact .done (hr.item (List.mem_of_getElem? hx) (.refl U))
    · exact .fail _
  | listSize => exact (h.keptItems rfl).bind fun _ _ _ _ => .done ⟨trivial, .int _⟩
  | listSet =>
    refine (hint 0 W).bind fun V n hV _ => ?_
    refine ((h.mono hV).arg 1).bind fun V₁ y hV₁ hy => ?_
    refine (((h.mono hV).mono hV₁).keptItems rfl).bind fun U r hU hr => ?_
    dsimp only
    split
    · split
      · next x hx =>
        refine hr.setState (fun z hz => ?_) fun T hT =>
          .done (hr.item (List.mem_of_getElem? hx) hT)
        rcases List.mem_or_eq_of_mem_set hz with hz | rfl
        · exact hr.of_mem hz
        · exact ⟨hy.1.mono hU, h.item 1 rfl z hy.2⟩
      · exact .fail _
    · exact .fail _
  | listSubList =>
    refine (hint 0 W).bind fun V n hV _ => ?_
    refine (hint 1 V).bind fun V₁ k hV₁ _ => ?_
    refine (((h.mono hV).mono hV₁).keptItems rfl).bind fun U r _ hr => ?_
    dsimp only
    split
    · refine .allocate hr.receiver.makes hr.receiver.formed fun T o hT ho hcls => ?_
      have hpart : ∀ x ∈ slice n.toInt.toNat k.toInt.toNat r.2, x ∈ r.2 := fun x hx =>
        List.mem_of_mem_take (List.mem_of_mem_drop hx)
      refine .setState ho ?_ (fun x hx => (hr.passed x (hpart x hx)).mono hT) ?_ fun S hS => ?_
      · rw [hcls, ← hr.receiver.cls]
        exact hr.receiver.isList
      · rw [hcls]
        exact fun x hx => hr.suits x (hpart x hx)
      · refine .done ⟨ho.mono hS, .own rfl ?_ ?_⟩
        · rw [hcls]
          exact hr.receiver.formed
        · rw [hcls]
          exact t.check_self _
    · exact .fail _
  | listRemove =>
    refine (hint 0 W).bind fun V n hV _ => ?_
    refine ((h.mono hV).keptItems rfl).bind fun U r _ hr => ?_
    dsimp only
    split
    · split
      · next x hx =>
        exact hr.setState (fun z hz => hr.of_mem (List.mem_of_mem_eraseIdx hz)) fun T hT =>
          .done (hr.item (List.mem_of_getElem? hx) hT)
      · exact .fail _
    · exact .fail _
  | listIsEmpty => exact (h.keptItems rfl).bind fun _ _ _ _ => .done ⟨trivial, .bool _⟩
  | systemOut => exact absurd rfl hf
  | stringLength | stringEquals | integerToString | integerParse | floatToString | floatParse
  | booleanToString | print | println | newline => exact absurd rfl hplain

end StandardFn

/-! ## Carrying out -/

/-- A careful program gives what it promises, and stops only where it may. -/
theorem Engine.gives_runHost {p : Program} {eng : Engine StandardFn} (h : p.WellTyped eng.table)
    (calls : Calls StandardFn) {κ : Context StandardFn} {W : World StandardFn} {L : Locals}
    {P : World StandardFn → α → Prop} {x : HostProgram StandardFn α}
    (hx : x.Careful eng.table P W) (span : Span) :
    eng.Gives κ W L (eng.runHost calls span x) P := by
  induction hx with
  | done ha => exact .pure ha
  | fail fault =>
    cases fault with
    | message text => exact .invalid _ span
    | nullDereference member => exact .raise (.nullDereference member) span
  | write text _ ih =>
    refine (gives_write text).bind fun V e hV _ => ?_
    cases e with
    | none => exact ih V hV
    | some e => exact .invalid _ span
  | allocate hc hformed _ ih =>
    exact (gives_allocate h hc hformed span).bind fun V o hV ho => ih V o hV ho.1 ho.2
  | getState ho _ ih =>
    refine (gives_contents ho).bind fun V i hV hi => ih V _ hV ?_
    obtain ⟨x, rfl, hvalid, hsuits⟩ := hi
    exact fun s hs => ⟨(hvalid.host s hs).1, hsuits.hostState hs⟩
  | setState ho hlist hs hsuits _ ih =>
    exact (gives_modifyContents ho (fun i hi => hi.setHost hlist hs)
      fun i _ hi => hi.setHost hsuits).bind fun V _ hV _ => ih V hV

/-! ## What is declared -/

/-- A return type that is written for a result. -/
def StandardFn.Result.Writes : Result → TypeExpr → Bool
  | .nothing, _ => false
  | .kind k, e => e.isBasic && e.name == k.typeName
  | .item, e => e.isItem
  | .list, e => e.isSelf

/-- The members of the standard library take and give what their functions do. -/
theorem NativeRegistry.results_standard : ∀ n ∈ standard.classes, ∀ m ∈ n.methods ++ n.constructors,
    m.function ≠ .systemOut ∧
    (m.function.onList = true → n.fullName = Ty.listName ∧ m.isStatic = false) ∧
    (∀ i ∈ m.function.itemPlace?, ∃ e ∈ m.params[i]?, e.1.isItem = true) ∧
    ∀ e ∈ m.returnType, m.function.result.Writes e = true := by
  decide +kernel

namespace Program.WellTyped

variable {p : Program} {t : ClassTable StandardFn} (h : p.WellTyped t)

include h

/-- Nothing but a list extends one. -/
theorem eq_of_extends_list {c d : RuntimeClass StandardFn} (hc : t.Makes c) (hcd : c.Extends d)
    (hname : d.name = Ty.listName) : c = d := by
  have hinherits := h.complete.inherits_of_extends (.inl hc) hcd
  have heq := h.eq_of_inherits_sealed (ClassTable.Offers.get? (.inl hc)) hinherits
    (hname ▸ List.mem_cons_self)
  exact (h.complete.eq_of_extends (.inl hc) hcd heq.symm).symm

section Natives

variable {n : NativeClass StandardFn} (hn : n ∈ standard.classes) {m : NativeMember StandardFn}
  (hm : m ∈ n.methods ++ n.constructors) {c : RuntimeClass StandardFn}
  (hc : t.Serves m.isStatic c) (hname : c.name = n.fullName) {sig : Signature}
  (hsig : t.signature (.ofNative n.fullName m) c.params = .ok sig)

include hn hm hc hname

/-- The functions of lists are called as members of a class of lists. -/
theorem list_of_onList (hf : m.function.onList = true) : m.isStatic = false ∧ t.Makes c ∧
    c.asTy.Formed t.arity? [] ∧ ∃ item, c.ty = ⟨Ty.listName, [item]⟩ ∧
      item.Formed t.arity? [] ∧ c.params = TypeParams.bound ["E"] [item] := by
  obtain ⟨hlist, hinstance⟩ := (NativeRegistry.results_standard n hn m hm).2.1 hf
  rw [hinstance] at hc
  cases hc with
  | shown _ hs => cases hs
  | made hmakes hformed =>
    exact ⟨hinstance, hmakes, hformed, h.list_params hmakes hformed (hname.trans hlist)⟩

omit hm in
/-- The basic types are no parameters of the class. -/
theorem get?_basic {e : TypeExpr} (he : e.isBasic = true) :
    TypeParams.get? (if m.isStatic then [] else c.params) e.name = none := by
  split
  · rfl
  · next hinstance =>
    rw [Bool.not_eq_true] at hinstance
    rw [hinstance] at hc
    cases hc with
    | shown _ hs => cases hs
    | made hmakes hformed =>
      rcases NativeRegistry.generics_standard n hn with hg | ⟨hlist, -⟩
      · have hget := ClassTable.Offers.get? (.inl hmakes)
        rw [hname, ClassTable.get?_standard h.build hn] at hget
        have hown : c.own.template.generics = [] := by rw [← Option.some.inj hget]; exact hg
        rw [ClassTable.Offers.params_eq_nil (.inl hmakes) hown]
        rfl
      · obtain ⟨item, -, -, hparams⟩ := h.list_params hmakes hformed (hname.trans hlist)
        rw [hparams]
        refine get?_listParams item fun heq => ?_
        have hbasic := (Bool.and_eq_true_iff.mp he).2
        rw [heq] at hbasic
        exact absurd hbasic (by decide)

include hsig

/-- What a function gives is a value of the declared return type. -/
theorem suits_result {W : World StandardFn} {v : Value StandardFn}
    (hv : m.function.result.Holds t c W v) :
    ∀ ty ∈ sig.returnType, v.Valid t W ∧ v.Suits t ty.resolved := by
  intro ty hty
  have hreturn := (ClassTable.signature_lowers hsig).2
  rw [memberParams_native] at hreturn
  rcases rel_elim hreturn with ⟨-, hnone⟩ | ⟨e, r, he, hr, hlower⟩
  · cases hnone.symm.trans hty
  cases hr.symm.trans hty
  have hwrites := (NativeRegistry.results_standard n hn m hm).2.2.2 e he
  have honList : m.function.result = .item ∨ m.function.result = .list →
      m.function.onList = true := by
    generalize m.function = f
    cases f <;> decide
  cases hresult : m.function.result with
  | nothing =>
    rw [hresult] at hwrites
    cases hwrites
  | kind k =>
    rw [hresult] at hv hwrites
    obtain ⟨hbasic, hkind⟩ := Bool.and_eq_true_iff.mp hwrites
    cases (h.lower_basic hbasic (h.get?_basic hn hc hname hbasic)).1.symm.trans hlower
    rw [beq_iff_eq.mp hkind]
    exact ⟨hv.1, Value.suits_resolved.mpr (hv.2.suits h)⟩
  | item =>
    rw [hresult] at hv hwrites
    obtain ⟨hinstance, -, -, item, hcty, hitem, hparams⟩ :=
      h.list_of_onList hn hm hc hname (honList (.inl hresult))
    rw [hinstance, if_neg Bool.false_ne_true, hparams] at hlower
    cases (lower_item hwrites item).symm.trans hlower
    rw [resolved_item hitem]
    exact ⟨hv.1, hv.2 item (by rw [hcty]; exact List.mem_singleton_self item)⟩
  | list =>
    rw [hresult] at hv hwrites
    obtain ⟨hinstance, -, -, item, hcty, hitem, hparams⟩ :=
      h.list_of_onList hn hm hc hname (honList (.inr hresult))
    rw [hinstance, if_neg Bool.false_ne_true, hparams] at hlower
    cases (h.lower_self hwrites item).symm.trans hlower
    have hasTy : c.asTy = .cls Ty.listName [item] := congrArg ClassTy.toTy hcty
    refine ⟨hv.1, ?_⟩
    show v.Suits t (.cls Ty.listName [(Ty.bound "E" item).resolved])
    rw [resolved_item hitem, ← hasTy]
    exact hv.2

/-- A call with arguments that suit the parameters keeps in lists what suits them. -/
theorem typed_hostCall {W : World StandardFn} {this : Value StandardFn}
    {args : List (Variable StandardFn)} {span : Span}
    (hvalid : HostCall.Valid t True W m.function ⟨c, this, args, span⟩)
    (hreceiver : ∀ o, this = .object o → t.Makes o.cls ∧ o.cls.Extends c)
    (hargs : List.Forall₂ (fun v (q : Param) => v.value.Suits t q.ty.resolved) args sig.params) :
    HostCall.Typed t W m.function ⟨c, this, args, span⟩ where
  valid := hvalid
  list hf := by
    obtain ⟨-, hmakes, hformed, item, hcty, -⟩ := h.list_of_onList hn hm hc hname hf
    refine ⟨hformed, fun o ho => ?_⟩
    obtain ⟨ho, hext⟩ := hreceiver o ho
    exact h.eq_of_extends_list ho hext (congrArg ClassTy.name hcty)
  item i hi v hv item hitem := by
    have honList : m.function.onList = true := by
      revert hi
      generalize m.function = f
      cases f <;> first | exact fun _ => rfl | exact fun hi => nomatch hi
    obtain ⟨hinstance, -, -, item', hcty, hformed, hparams⟩ :=
      h.list_of_onList hn hm hc hname honList
    obtain ⟨e, he, hwritten⟩ := (NativeRegistry.results_standard n hn m hm).2.2.1 i hi
    have hlowers := (ClassTable.signature_lowers hsig).1
    rw [memberParams_native, hinstance, if_neg Bool.false_ne_true, hparams] at hlowers
    rcases rel_elim (forall₂_getElem? hargs i) with ⟨hnone, -⟩ | ⟨v', q, hv', hq, hsuits⟩
    · cases hnone.symm.trans hv
    cases hv'.symm.trans hv
    rcases rel_elim (forall₂_getElem? hlowers i) with ⟨-, hnone⟩ | ⟨e', q', he', hq', -, hlower⟩
    · cases hnone.symm.trans hq
    cases hq'.symm.trans hq
    have hget : (m.params.map fun e : TypeExpr × String => (e.2, e.1))[i]? = some (e.2, e.1) := by
      rw [List.getElem?_map, he, Option.map_some]
    cases hget.symm.trans he'
    have hty := Except.ok.inj ((lower_item hwritten item').symm.trans hlower)
    rw [← hty, resolved_item hformed] at hsuits
    have hitem : item ∈ c.ty.args := hitem
    rw [hcty] at hitem
    rw [List.mem_singleton.mp hitem]
    exact hsuits

end Natives

end Program.WellTyped

end Middleweight
