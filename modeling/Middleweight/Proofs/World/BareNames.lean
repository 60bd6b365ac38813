import Middleweight.Proofs.Objects.Fields
import Middleweight.Proofs.World.Mirrors
import Middleweight.Proofs.World.Walks

/-!
# Bare names mean the same to the checker and to a run

The checker takes a bare name for a local, for a field of the class of the body, for a class or for
a namespace; the engine asks its scope, the running object and the class table. The running object
can be of a class that extends that of the body. It has all fields that the checker knows of, and
those that its own class adds; one of these can hide a class or a namespace of its name.

* `Moment.LooksUp` : the bare names that a moment looks up
* `Engine.RunsChecked.referent?_eq` : they stand for the same thing in a sound machine
* `bare_names_agree` : runs of analysed programs
-/

namespace Middleweight

open NativeRegistry (standard)
open Bases (Ascends)

variable {F : Type}

/--
A bare name that an activity looks up: it is evaluated, counted up or down, or assigned to by an
operator; and the machine in which it is looked up.
-/
inductive Moment.LooksUp [HostFunctions F] (eng : Engine F) :
    Moment F → Identifier → Machine F → Prop
  | var : LooksUp eng ⟨n, .expression (.var name), m⟩ name m
  | step : LooksUp eng ⟨n, .expression (.step op before (.var name) span), m⟩ name m
  | compound : op.binary? = some binary → eng.tellStatement span m = .ok () m₁ →
      eng.eval (.atDepth eng n) e m₁ = .ok v m₂ →
      LooksUp eng ⟨n, .statement (.assign name op e span), m⟩ name m₂

namespace Moment.LooksUp

variable {N : Moment F} {name : Identifier} {m : Machine F}

theorem isCode [HostFunctions F] {eng : Engine F} (h : N.LooksUp eng name m) :
    N.activity.isCode = true := by
  cases h <;> rfl

theorem mirrors [HostFunctions F] {eng : Engine F} (h : N.LooksUp eng name m) {κ : Context F}
    {ctx : BodyContext F} {L : Locals} (hN : N.machine.scope.Mirrors κ ctx L) :
    m.scope.Mirrors κ ctx L := by
  cases h with
  | var => exact hN
  | step => exact hN
  | compound _ htell heval =>
    exact .keeps (eng.keepsNames_eval (Calls.scopeKept_atDepth eng _) _)
      (.keeps (eng.keepsNames_tellStatement _) hN htell) heval

theorem valid {eng : Engine StandardFn} {p : Program} {N : Moment StandardFn}
    {m : Machine StandardFn} (h : N.LooksUp eng name m)
    (hbuild : ClassTable.build p standard = .ok eng.table) (hN : N.Sound eng.table True) :
    ∃ W, m.Valid eng.table True W := by
  obtain ⟨⟨W, hm, -⟩, -⟩ := hN
  cases h with
  | var => exact ⟨W, hm⟩
  | step => exact ⟨W, hm⟩
  | compound _ htell heval =>
    obtain ⟨V, -, hV, -⟩ := (Engine.sustains_tellStatement _).ok hm htell
    obtain ⟨U, -, hU, -⟩ := (Engine.sustains_eval hbuild
      (Calls.sustained_atDepth hbuild True _) _).ok hV heval
    exact ⟨U, hU⟩

end Moment.LooksUp

/-- Whether a name stands for the running instance or for something in it. -/
def Referent.isOwn : Referent → Bool
  | self | field => true
  | _ => false

/-- Whether a name stands for a class or a namespace. -/
def Referent.isGlobal : Referent → Bool
  | static _ | «namespace» _ => true
  | _ => false

/-- A class that extends another one, or that one itself, declares a field of a name. -/
def ClassTable.ExtendedWith (t : ClassTable F) (className field : String) : Prop :=
  ∃ c ∈ t.classes, t.inherits c.name className = true ∧ (c.field? field).isSome = true

theorem ClassTable.isGlobal_of_named? {t : ClassTable F} {name : String} {r : Referent}
    (h : t.named? name = some r) : r.isGlobal = true := by
  unfold named? at h
  split at h
  · cases h
    rfl
  · obtain ⟨n, -, rfl⟩ := Option.map_eq_some_iff.mp h
    rfl

/-! ## The checker -/

namespace BodyContext

variable {ctx : BodyContext F} {L : Locals}

theorem exists_referent_of_variable {name : Identifier} {o : Operand}
    (h : ctx.variableOperand L name = .ok o) :
    ∃ r, ctx.referent? L name.name = some r ∧ ctx.operandOf? L name.name r = some o := by
  rw [variableOperand_eq] at h
  split at h
  · next o' ho =>
    cases h
    exact Option.bind_eq_some_iff.mp ho
  · cases h

/-- A name that is assigned to stands for a variable. -/
theorem variable_of_targetType {name : Identifier} {ty : Ty} (h : ctx.targetType L name = .ok ty) :
    ctx.variableOperand L name = .ok (.value ty) := by
  unfold targetType at h
  unfold variableOperand
  split at h
  · cases h
  · cases hlocal : L.lookup name.name with
    | some ty' =>
      rw [hlocal] at h
      cases h
      rfl
    | none =>
      rw [hlocal] at h
      cases hfield : ctx.instanceField name.name with
      | some ty' =>
        rw [hfield] at h
        cases h
        rfl
      | none =>
        rw [hfield] at h
        cases h

/-- The checker has taken a name for something that a moment of an accepted part looks up. -/
theorem Accepts.exists_variable [HostFunctions F] {eng : Engine F} {N : Moment F}
    {name : Identifier} {m : Machine F} (h : ctx.Accepts L N.activity)
    (hname : N.LooksUp eng name m) : ∃ o, ctx.variableOperand L name = .ok o := by
  cases hname with
  | var =>
    obtain ⟨o, ho⟩ := Evaluable.exists_operand h (by simp)
    rw [operand] at ho
    exact ⟨o, ho⟩
  | step =>
    obtain ⟨o, ho⟩ := Evaluable.exists_operand h (by simp)
    rw [operand, operand] at ho
    obtain ⟨o', ho', -⟩ := ok_of_bind ho
    exact ⟨o', ho'⟩
  | compound _ _ _ =>
    obtain ⟨L', hs⟩ := h
    rw [statement] at hs
    obtain ⟨declared, hdeclared, -⟩ := ok_of_bind hs
    exact ⟨_, variable_of_targetType hdeclared⟩

/-- In a scope with the names of the checker, `this` stands for nothing but the instance. -/
theorem referent?_this (hthis : L.heightOf? "this" = ctx.this?.map fun _ => 0)
    (hnamed : ctx.table.named? "this" = none) {r : Referent} (hr : ctx.referent? L "this" = some r) :
    r = .self := by
  unfold referent? at hr
  cases hlevel : L.levelOf? "this" with
  | some level =>
    rw [hlevel, hthis] at hr
    rw [Locals.heightOf?, hlevel] at hthis
    cases hinstance : ctx.this? with
    | none =>
      rw [hinstance] at hthis
      cases hthis
    | some this =>
      rw [hinstance] at hr
      exact (Option.some.inj hr).symm
  | none =>
    rw [hlevel] at hr
    rw [Locals.heightOf?, hlevel] at hthis
    have hnone : ctx.this? = none := Option.map_eq_none_iff.mp hthis.symm
    simp [instanceField, hnone, hnamed] at hr

end BodyContext

/-! ## Fields -/

theorem Context.exists_of_instance? {κ : Context F} {o : ObjectRef F} (h : κ.instance? = some o) :
    ∃ c, κ = .instance o c := by
  cases κ with
  | «instance» o' c =>
    cases h
    exact ⟨c, rfl⟩
  | _ => cases h

section Fields

variable {p : Program} {t : ClassTable StandardFn} {m : Machine StandardFn} {name : String}

/-- The running object has the fields of its class. -/
theorem Machine.Valid.isSome_ownField? {W : World StandardFn} (hm : m.Valid t True W)
    {o : ObjectRef StandardFn} {c : RuntimeClass StandardFn}
    (hcontext : m.scope.context = .instance o c) :
    (m.ownField? name).isSome = t.hasField o.cls.name name := by
  have hscope := hm.scope.context
  rw [hcontext] at hscope
  obtain ⟨i, hi, hvalid⟩ := hm.contents hscope.1
  have hmakes : t.Makes o.cls := (hm.creates hscope.1).makes trivial
  rw [← hmakes.isSome_field?, Machine.ownField?, hcontext]
  show ((m.heap[o.id]?).bind fun i => i.field? name).isSome = _
  rw [hi, Option.bind_some, Bool.eq_iff_iff]
  constructor
  · intro hsome
    obtain ⟨v, hv⟩ := Option.isSome_iff_exists.mp hsome
    obtain ⟨s, hs, -⟩ := hvalid.slot_of_field? hv
    exact Option.isSome_iff_exists.mpr ⟨s, hs⟩
  · intro hsome
    obtain ⟨s, hs⟩ := Option.isSome_iff_exists.mp hsome
    obtain ⟨v, hv, -⟩ := hvalid.exists_field? hs
    exact Option.isSome_iff_exists.mpr ⟨v, hv⟩

/-- The checker knows of the fields of the class of the body. -/
theorem BodyContext.isSome_instanceField {ctx : BodyContext StandardFn} {p : Program}
    (h : ClassTable.build p standard = .ok ctx.table)
    (hcls : ctx.table.get? ctx.cls.name = some ctx.cls)
    (hthis : ctx.this? = some ctx.cls.selfType) :
    (ctx.instanceField name).isSome = ctx.table.hasField ctx.cls.name name := by
  obtain ⟨n, hn⟩ := ClassTable.climbs_of_build h hcls
  obtain ⟨ty?, hty, hsome⟩ :=
    (ClassTable.isSome_fieldType hn name : ∃ ty?, ctx.table.fieldType ctx.cls.selfType name = _ ∧ _)
  rw [instanceField, hthis]
  dsimp only
  rw [hty]
  exact hsome

end Fields

/-! ## Runs -/

namespace Engine.RunsChecked

variable {eng : Engine StandardFn} {p : Program} {t : ClassTable StandardFn}
  {N start : Moment StandardFn} {ctx : BodyContext StandardFn} {L : Locals}
  {m : Machine StandardFn} {W : World StandardFn}

section Members

variable (h : eng.RunsChecked p t)

include h

/-- The running object has the fields of the class of the body, and those that classes add to it. -/
theorem hasField_of_context {member : Member StandardFn} {L₀ : Locals}
    (hopens : p.Opens t member ctx L₀) {κ : Context StandardFn} (hκ : κ.Of ctx)
    (hm : m.Valid eng.table True W) {o : ObjectRef StandardFn} {c : RuntimeClass StandardFn}
    (hcontext : m.scope.context = .instance o c) (hsame : m.scope.context = κ) (name : String) :
    ((ctx.instanceField name).isSome = true → (m.ownField? name).isSome = true) ∧
      ((ctx.instanceField name).isSome = false → ¬ t.ExtendedWith ctx.cls.name name →
        (m.ownField? name).isSome = false) := by
  obtain ⟨htable, hget⟩ := hopens.get?_owner
  obtain ⟨p₀, hbuild⟩ := h.table
  have hcls : t.get? ctx.cls.name = some ctx.cls := by
    rw [ClassTable.get?_name hget]
    exact hget
  have hthis : ctx.this? = some ctx.cls.selfType := by
    have heq := hopens.this_eq
    split at heq
    · have hnone := hκ.static heq
      rw [← hsame, hcontext] at hnone
      cases hnone
    · exact heq
  have hscope := hm.scope.context
  rw [hcontext] at hscope
  have hmakes : eng.table.Makes o.cls := (hm.creates hscope.1).makes trivial
  obtain ⟨l, hl⟩ : ∃ l, Ascends eng.table.baseName? o.cls.name l :=
    hmakes.instantiates.climbs.ascends
  have hmem : ctx.cls.name ∈ l :=
    hκ.owner o c (hsame.symm.trans hcontext) ▸
      ClassTable.Offers.mem_of_extends (.inl hmakes) hscope.2 hl
  rw [h.alike.bases] at hl
  rw [BodyContext.isSome_instanceField (htable ▸ hbuild) (htable ▸ hcls) hthis, htable,
    hm.isSome_ownField? hcontext, h.alike.hasField_eq hl]
  refine ⟨ClassTable.hasField_of_inherits hl hmem, fun hnone hadds => ?_⟩
  rw [Bool.eq_false_iff]
  exact fun hfield => hadds (ClassTable.exists_declares_of_hasField hl hmem hnone hfield)

/-- A name stands for the same thing to the engine as to the checker, in a scope of its names. -/
theorem referent?_eq {member : Member StandardFn} {L₀ : Locals}
    (hopens : p.Opens t member ctx L₀) {κ : Context StandardFn} (hκ : κ.Of ctx)
    (hm : m.Valid eng.table True W) (hmirrors : m.scope.Mirrors κ ctx L)
    (hthis : t.named? "this" = none) {name : String} {r : Referent}
    (hr : ctx.referent? L name = some r)
    (hown : r.isOwn = true → m.scope.context.instance?.isSome = true)
    (hglobal : r.isGlobal = true → ctx.this?.isSome = true →
      ¬ t.ExtendedWith ctx.cls.name name) :
    eng.referent? m name = some r := by
  obtain ⟨htable, -⟩ := hopens.get?_owner
  have hnamed : eng.table.named? = t.named? := by
    unfold ClassTable.named?
    rw [h.alike.imports, h.alike.natives]
  unfold Engine.referent?
  split
  · next hname =>
    subst hname
    obtain rfl := BodyContext.referent?_this hmirrors.this (htable ▸ hthis) hr
    obtain ⟨o, ho⟩ := Option.isSome_iff_exists.mp (hown rfl)
    rw [Context.this?, ho]
    rfl
  · next hname =>
    rw [hmirrors.follows.levelOf?_eq hname]
    unfold BodyContext.referent? at hr
    cases hlevel : L.levelOf? name with
    | some level =>
      rw [hlevel] at hr
      simpa [hname] using hr
    | none =>
      rw [hlevel] at hr
      dsimp only at hr ⊢
      split at hr
      · next hfield =>
        cases hr
        obtain ⟨o, ho⟩ := Option.isSome_iff_exists.mp (hown rfl)
        obtain ⟨c, hcontext⟩ := Context.exists_of_instance? ho
        rw [if_pos ((h.hasField_of_context hopens hκ hm hcontext hmirrors.context name).1 hfield)]
      · next hfield =>
        rw [hnamed, ← htable, hr]
        refine if_neg ?_
        rw [Bool.not_eq_true] at hfield ⊢
        cases hinstance : m.scope.context.instance? with
        | none => rw [Machine.ownField?, hinstance]; rfl
        | some o =>
          obtain ⟨c, hcontext⟩ := Context.exists_of_instance? hinstance
          have hthis : ctx.this?.isSome = true := by
            rw [Option.isSome_iff_ne_none]
            intro hnone
            have hstatic := hκ.static hnone
            rw [← hmirrors.context, hinstance] at hstatic
            cases hstatic
          exact (h.hasField_of_context hopens hκ hm hcontext hmirrors.context name).2 hfield
            (hglobal (ClassTable.isGlobal_of_named? hr) hthis)

/-- Only a class of the program could be named `this`. -/
theorem named?_this (hnames : p.HasOrdinaryNames) : t.named? "this" = none := by
  have hresolve : t.imports.resolve? "this" = none := by
    rw [← h.alike.imports]
    cases hres : eng.table.imports.resolve? "this" with
    | none => rfl
    | some full =>
      obtain ⟨d, hd, hname⟩ := ImportTable.resolve?_this (ClassTable.imports_of_build h.build) hres
      exact absurd hname (hnames.classes d hd)
  have hnamespace : standard.namespace? "this" = none := by decide +kernel
  rw [ClassTable.named?, hresolve, ← h.alike.natives, ClassTable.natives_of_build h.build]
  dsimp only
  rw [hnamespace]
  rfl

/--
A bare name that a run looks up stands for the same thing to the checker and to the engine: if that
is in the running instance, where there is one; and if it is a class or a namespace, where the body
is static or no class that extends that of the body has a field of its name.
-/
theorem lookup_eq_variable (hstart : start.Sound eng.table True) (hnames : p.HasOrdinaryNames)
    (hN : Occurs eng p t start ctx L N) {name : Identifier} (hname : N.LooksUp eng name m) :
    ∃ r o, ctx.referent? L name.name = some r ∧ ctx.operandOf? L name.name r = some o ∧
      ctx.variableOperand L name = .ok o ∧
      ((r.isOwn = true → m.scope.context.instance?.isSome = true) →
        (r.isGlobal = true → ctx.this?.isSome = true →
          ¬ ctx.table.ExtendedWith ctx.cls.name name.name) →
        eng.referent? m name.name = some r ∧
          ∃ v m₁, eng.lookup name m = .ok v m₁ ∧ eng.Denotes m name.name r v) := by
  obtain ⟨o, ho⟩ := (h.accepts hstart hN).exists_variable hname
  obtain ⟨r, hr, hoperand⟩ := BodyContext.exists_referent_of_variable ho
  refine ⟨r, o, hr, hoperand, ho, fun hown hglobal => ?_⟩
  obtain ⟨member, L₀, hopens⟩ := hN.opened
  obtain ⟨κ, hκ, hmirrors, -⟩ := h.mirrors hstart hnames hN
  obtain ⟨W, hm⟩ := hname.valid h.build (hN.reaches.sound h.build hstart)
  have hreferent := h.referent?_eq hopens hκ hm (hname.mirrors hmirrors) (h.named?_this hnames) hr
    hown (hopens.get?_owner.1 ▸ hglobal)
  exact ⟨hreferent, Engine.lookup_of_referent? h.build hm.remembers hreferent⟩

end Members

end Engine.RunsChecked

/--
Bare names mean the same to analysis and to a run of the program that it gives, and to everything
else that a host does with it.
-/
theorem bare_names_agree {p p' : Program} (hp : p.analyse standard = .ok p')
    (hnames : p.HasOrdinaryNames) {eng : Engine StandardFn} (hserves : eng.Serves p')
    {strict : Prop} {given : List (ObjectRef StandardFn)} {m₀ : Machine StandardFn}
    (hist : History eng strict given m₀) {op : HostOperation StandardFn}
    (hop : op.Allowed eng.table strict given)
    (hrun : op = .run ∨ strict ∧ ∀ ty span, op = .classOf ty span → ty.isConcrete = true) :
    ∃ t, ClassTable.build p standard = .ok t ∧
      ∀ N name m, Reaches eng ⟨eng.budget, .operation op, m₀⟩ N → N.LooksUp eng name m →
        (∃ ctx L, Occurs eng p' t ⟨eng.budget, .operation op, m₀⟩ ctx L N) ∧
        ∀ ctx L, Occurs eng p' t ⟨eng.budget, .operation op, m₀⟩ ctx L N →
          ∃ r o, ctx.referent? L name.name = some r ∧ ctx.operandOf? L name.name r = some o ∧
            ctx.variableOperand L name = .ok o ∧
            ((r.isOwn = true → m.scope.context.instance?.isSome = true) →
              (r.isGlobal = true → ctx.this?.isSome = true →
                ¬ ctx.table.ExtendedWith ctx.cls.name name.name) →
              eng.referent? m name.name = some r ∧
                ∃ v m₁, eng.lookup name m = .ok v m₁ ∧ eng.Denotes m name.name r v) := by
  obtain ⟨t, hbuild, hchecked⟩ := Engine.runsChecked_of_analysed hp hserves
  have hstart : Moment.Sound ⟨eng.budget, .operation op, m₀⟩ eng.table True :=
    ⟨hist.valid_operation hserves.build hop hrun, trivial⟩
  have hnames' := hnames.analysed (Program.analyse_ok_iff.mp hp)
  refine ⟨t, hbuild, fun N name m hreach hname => ⟨?_, fun ctx L hN => ?_⟩⟩
  · exact hchecked.exists_occurs hstart rfl hreach hname.isCode
  · exact hchecked.lookup_eq_variable hstart hnames' hN hname

open Build in
/-- A body that reads a field of its class, which an object of another class runs. -/
def flatProgram : Program :=
  program
    [{ name := ident "House", fields := [field "String" "name"],
       methods := [method "greet" none [] [expr (println (var "name"))]] },
     { name := ident "Flat", base := some (ty "House"), fields := [field "int" "floor"] },
     { name := ident "Main",
       methods := [mainMethod
         [localVariable "Flat" "name" (some (new "Flat" [])),
          fieldAssign (var "name") "name" (string "Home"),
          expr (call (var "name") "greet" [])]] }]

/-- Whether the evaluated name is `name`, a field of the running instance. -/
def Visit.evaluatesField (name : String) (v : Visit StandardFn) : Bool :=
  match v.view?, v.moment.activity with
  | some (ctx, L), .expression (.var i) =>
    i.name == name && ctx.referent? L i.name == some .field &&
      v.moment.machine.scope.context.instance?.isSome
  | _, _ => false

theorem bare_names_agree_flat : ∃ p' eng t N name ctx L v m₁,
    flatProgram.analyse standard = .ok p' ∧ flatProgram.HasOrdinaryNames ∧
    Engine.new p' standard = .ok eng ∧ Reaches eng (.first eng) N ∧
    N.activity = .expression (.var name) ∧ name.name = "name" ∧
    Occurs eng p' t (.first eng) ctx L N ∧ ctx.referent? L name.name = some .field ∧
    eng.referent? N.machine name.name = some .field ∧
    eng.lookup name N.machine = .ok v m₁ ∧ eng.Denotes N.machine name.name .field v := by
  have hvisits : flatProgram.visits [0, 0, 0, 0, 1, 1, 0, 0, 2, 0, 0, 0, 0, 1, 0]
      (fun _ v => v.evaluatesField "name") = true := by
    decide +kernel
  have hnames : flatProgram.HasOrdinaryNames := by decide +kernel
  obtain ⟨p', t, eng, v, hanalyse, hbuild, hnew, hv, htest⟩ := Program.visits_ok hvisits
  unfold Visit.evaluatesField at htest
  split at htest
  · next ctx L name hview hactivity =>
    simp only [Bool.and_eq_true, beq_iff_eq] at htest
    obtain ⟨⟨hname, hreferent⟩, hinstance⟩ := htest
    have hrun : HostOperation.Allowed eng.table True [] .run := trivial
    obtain ⟨t', hbuild', hagree⟩ :=
      bare_names_agree hanalyse hnames ⟨eng, hnew, rfl⟩ .fresh hrun (.inl rfl)
    cases hbuild.symm.trans hbuild'
    have hlooks : v.moment.LooksUp eng name v.moment.machine := by
      obtain ⟨⟨n, activity, m⟩, view⟩ := v
      cases hactivity
      exact .var
    have hoccurs := hv.occurs ctx L hview
    obtain ⟨r, o, hr, -, -, hsame⟩ := (hagree _ name _ hv.reaches hlooks).2 ctx L hoccurs
    cases hreferent.symm.trans hr
    obtain ⟨hreferent', w, m₁, hlookup, hdenotes⟩ :=
      hsame (fun _ => hinstance) fun hglobal => by cases hglobal
    exact ⟨p', eng, t, v.moment, name, ctx, L, w, m₁, hanalyse, hnames, hnew, hv.reaches, hactivity,
      hname, hoccurs, hreferent, hreferent', hlookup, hdenotes⟩
  · cases htest

/-! ## The conditions -/

/-- Whether a name that is evaluated stands for something else to the engine than to the checker. -/
def Visit.misreads (eng : Engine StandardFn) (v : Visit StandardFn) : Bool :=
  match v.view?, v.moment.activity with
  | some (ctx, L), .expression (.var name) =>
    (ctx.referent? L name.name).any fun r =>
      eng.referent? v.moment.machine name.name != some r
  | _, _ => false

open Build in
/-- Accepted programs, each with a way to a name that stands for different things. -/
def misreadPrograms : List (Program × List Nat) :=
  [ -- A field of an extending class hides the class that an inherited body names.
    (program
      [{ name := ident "House",
         methods := [method "greet" none [] [expr (println (string "Hello"))]] },
       { name := ident "Flat", base := some (ty "House"), fields := [field "int" "System"] },
       { name := ident "Main",
         methods := [mainMethod [expr (call (new "Flat" []) "greet" [])]] }],
     [0, 0, 0, 0, 0, 0, 2, 0, 0, 0, 0, 0, 0]),
    -- A class is named `this`, then a local of an instance method, then a parameter.
    (program
      [{ name := ident "this", methods := [staticMethod "bark" none [] []] },
       { name := ident "Main", methods := [mainMethod [expr (call this "bark" [])]] }],
     [0, 0, 0, 0, 0, 0, 0]),
    (program
      [{ name := ident "Dog",
         methods := [method "bark" none []
           [block [localVariable "String" "this" (some (string "Wau")), expr (println this)]]] },
       { name := ident "Main",
         methods := [mainMethod [expr (call (new "Dog" []) "bark" [])]] }],
     [0, 0, 0, 0, 0, 0, 2, 0, 0, 0, 1, 1, 0, 0, 1, 0]),
    (program
      [{ name := ident "Main",
         methods :=
           [staticMethod "bark" none [param "String" "this"] [expr (println this)],
            mainMethod [expr (call (var "Main") "bark" [string "Wau"])]] }],
     [0, 0, 0, 0, 0, 0, 2, 0, 0, 0, 0, 1, 0]),
    -- A loop declares a local where it goes on, which is after its first round.
    (program
      [{ name := ident "Main",
         methods := [mainMethod
           [forLoop (localVariable "int" "i" (some (int 0))) (boolean true)
             (localVariable "int" "j" (some (int 1)))
             [localVariable "int" "n" (some (var "j"))]]] }],
     [0, 0, 0, 0, 0, 1, 0, 0, 1]),
    -- A number that is cast to a class runs a body of the class without an object.
    (program
      [{ name := ident "Dog", fields := [field "int" "age"],
         methods := [method "bark" none [] [localVariable "int" "n" (some (var "age"))]] },
       { name := ident "Main",
         methods := [mainMethod [expr (call (group (cast "Dog" (int 1))) "bark" [])]] }],
     [0, 0, 0, 0, 0, 0, 2, 0, 0, 0, 1]) ]

/-- Where a condition fails, a name may stand for something else to the engine. -/
theorem misread_names : misreadPrograms.Forall fun (p, _) => ∃ p' t eng N name ctx L r,
    p.analyse standard = .ok p' ∧ ClassTable.build p standard = .ok t ∧
    Engine.new p' standard = .ok eng ∧ Reaches eng (.first eng) N ∧
    N.activity = .expression (.var name) ∧ Occurs eng p' t (.first eng) ctx L N ∧
    ctx.referent? L name.name = some r ∧ eng.referent? N.machine name.name ≠ some r := by
  have hvisits : ∀ e ∈ misreadPrograms, e.1.visits e.2 Visit.misreads = true := by
    decide +kernel
  refine List.forall_iff_forall_mem.mpr fun e he => ?_
  obtain ⟨p', t, eng, v, hanalyse, hbuild, hnew, hv, htest⟩ := Program.visits_ok (hvisits e he)
  unfold Visit.misreads at htest
  split at htest
  · next ctx L name hview hactivity =>
    obtain ⟨r, hr, hne⟩ := (Option.any_eq_true _ _).mp htest
    exact ⟨p', t, eng, v.moment, name, ctx, L, r, hanalyse, hbuild, hnew, hv.reaches, hactivity,
      hv.occurs ctx L hview, hr, bne_iff_ne.mp hne⟩
  · cases htest

end Middleweight
