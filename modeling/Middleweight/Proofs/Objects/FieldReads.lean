import Middleweight.Proofs.Objects.Moments
import Middleweight.Proofs.Objects.Runs
import Middleweight.Proofs.World.Walks

/-!
# What is read has the type that the checker gave it

The checker finds the type of a field in the class that it knows of a receiver; the engine finds the
field by its name in an object, which has the fields of all classes from its own to the root. The
class with which the field was declared there passes as the type of the checker, whatever class the
object is of. The same goes for bare names, and for what is read to be counted up or assigned to by
an operator.

* `Moment.Reads` : reading a field or a bare name
* `Occurs.matching` : the checker comes to the same parts of bodies with matching tables
* `reads_pass` : runs of monomorphic programs
-/

namespace Middleweight

open NativeRegistry (standard)

variable {F : Type}

/-! ## Reading -/

/-- A field of something, or a bare name. -/
def Expr.isAccess : Expr → Bool
  | .var _ | .field _ _ _ => true
  | _ => false

/--
An activity reads a variable where the program has a field or a bare name: it evaluates it, counts
it up or down, or assigns to it by an operator.
-/
inductive Moment.Reads [HostFunctions F] (eng : Engine F) : Moment F → Expr → Variable F → Prop
  | access : e.isAccess = true → eng.eval (.atDepth eng n) e m = .ok v m₁ →
      Reads eng ⟨n, .expression e, m⟩ e v
  | stepName : eng.lookup name m = .ok v m₁ →
      Reads eng ⟨n, .expression (.step op before (.var name) span), m⟩ (.var name) v
  | stepField : eng.eval (.atDepth eng n) receiver m = .ok r m₁ →
      eng.fieldValue (.atDepth eng n) r.value field span m₁ = .ok v m₂ →
      Reads eng ⟨n, .expression (.step op before (.field receiver field place) span), m⟩
        (.field receiver field place) v
  | assignName : op.binary? = some binary → eng.tellStatement span m = .ok () m₁ →
      eng.eval (.atDepth eng n) e m₁ = .ok w m₂ → eng.lookup target m₂ = .ok v m₃ →
      Reads eng ⟨n, .statement (.assign target op e span), m⟩ (.var target) v
  | assignField : op.binary? = some binary → eng.tellStatement span m = .ok () m₁ →
      eng.eval (.atDepth eng n) receiver m₁ = .ok ⟨k, .object o⟩ m₂ →
      eng.eval (.atDepth eng n) e m₂ = .ok w m₃ →
      EvalM.field? o field.name m₃ = .ok (some v) m₄ →
      Reads eng ⟨n, .statement (.fieldAssign receiver field op e span), m⟩
        (.field receiver field span) v

theorem Moment.Reads.isCode [HostFunctions F] {eng : Engine F} {N : Moment F} {e : Expr}
    {v : Variable F} (h : N.Reads eng e v) : N.activity.isCode = true := by
  cases h <;> rfl

/-- A field that an object has is its value to the engine. -/
theorem Engine.fieldValue_of_field? [HostFunctions F] {eng : Engine F} {calls : Calls F}
    {o : ObjectRef F} {field : Identifier} {span : Span} {v : Variable F} {m m' : Machine F}
    (h : EvalM.field? o field.name m = .ok (some v) m') :
    eng.fieldValue calls (.object o) field span m = .ok v m' := by
  have hread : EvalM.field? o field.name m = (pure (some v) : EvalM F _) m' := h
  exact EvalM.bind_congr_at hread _

/-- What a typed moment reads is what the checker takes the field or the name for. -/
theorem Moment.Reads.means {p : Program} {eng : Engine StandardFn} (h : p.WellTyped eng.table)
    {N : Moment StandardFn} {e : Expr} {v : Variable StandardFn} (hread : N.Reads eng e v)
    {ctx : BodyContext StandardFn} {L : Locals} {κ : Context StandardFn} {W : World StandardFn}
    (hN : N.TypedAt eng.table ctx L κ W) :
    ∃ o V, ctx.operand L e = .ok o ∧ o.Means eng.table V v := by
  obtain ⟨hm, hctx, haccepts, hcasts, -⟩ := hN
  have hcalls := Calls.typed_atDepth h
  have hκ := hctx
  obtain ⟨hκ, -⟩ := hκ
  cases hread with
  | access he heval =>
    obtain ⟨o, ho⟩ := haccepts.exists_operand fun _ _ _ _ heq => by
      rw [heq] at he
      cases he
    obtain ⟨V, -, -, hv⟩ := (Engine.gives_eval h (hcalls _) hκ ho hcasts).ok hm heval
    exact ⟨o, V, ho, hv⟩
  | @stepName name _ v _ op before span _ hlookup =>
    obtain ⟨o, ho⟩ := haccepts.exists_operand (by simp)
    rw [BodyContext.operand] at ho
    obtain ⟨vo, hvo, -⟩ := ok_of_bind ho
    have hname := hvo
    rw [BodyContext.operand] at hname
    obtain ⟨V, -, -, hv⟩ := (Engine.gives_lookup h hκ hname).ok hm hlookup
    exact ⟨vo, V, hvo, hv⟩
  | stepField heval hvalue =>
    obtain ⟨o, ho⟩ := haccepts.exists_operand (by simp)
    rw [BodyContext.operand] at ho
    obtain ⟨vo, hvo, -⟩ := ok_of_bind ho
    have hfield := hvo
    rw [BodyContext.operand] at hfield
    obtain ⟨ro, hro, hfield⟩ := ok_of_bind hfield
    simp only [Activity.EachType, Expr.EachType] at hcasts
    obtain ⟨V, -, hm₁, hr⟩ := (Engine.gives_eval h (hcalls _) hκ hro hcasts).ok hm heval
    obtain ⟨U, -, -, hv⟩ :=
      (Engine.gives_fieldValue h (hcalls _) hfield hr _).ok hm₁ hvalue
    exact ⟨vo, U, hvo, hv⟩
  | assignName _ htell heval hlookup =>
    obtain ⟨L', hs⟩ := haccepts
    have hevaluable := BodyContext.evaluable_first hs rfl
    rw [BodyContext.statement] at hs
    obtain ⟨declared, hdeclared, -⟩ := ok_of_bind hs
    have ho := BodyContext.variableOperand_eq_value.mpr
      (BodyContext.stores_of_targetType hdeclared)
    obtain ⟨V, -, hm₁, -⟩ := (Engine.gives_tellStatement _).ok hm htell
    obtain ⟨U, -, hm₂, -⟩ := (Engine.gives_evaluable h hctx _ hevaluable
      (Stmt.eachType_first hcasts rfl)).ok hm₁ heval
    obtain ⟨T, -, -, hv⟩ := (Engine.gives_lookup h hκ ho).ok hm₂ hlookup
    exact ⟨_, T, by rw [BodyContext.operand]; exact ho, hv⟩
  | assignField _ htell hreceiver heval hfield =>
    obtain ⟨L', hs⟩ := haccepts
    rw [BodyContext.statement] at hs
    obtain ⟨ro, hro, hs⟩ := ok_of_bind hs
    obtain ⟨declared, hdeclared, hs⟩ := ok_of_bind hs
    obtain ⟨_, hassign, -⟩ := ok_of_bind hs
    have ho := BodyContext.fieldOperand_of_targetType hdeclared
    simp only [Activity.EachType, Stmt.EachType] at hcasts
    obtain ⟨V, -, hm₁, -⟩ := (Engine.gives_tellStatement _).ok hm htell
    obtain ⟨U, -, hm₂, hr⟩ := (Engine.gives_eval h (hcalls _) hκ hro hcasts.1).ok hm₁ hreceiver
    obtain ⟨T, hT, hm₃, -⟩ := (Engine.gives_evaluable h hctx _
      (BodyContext.evaluable_of_assignment hassign) hcasts.2).ok hm₂ heval
    -- The field is there, so neither the depth nor the place counts.
    obtain ⟨S, -, -, hv⟩ :=
      (Engine.gives_fieldValue h (hcalls 0) ho (hr.mono hT) {}).ok hm₃
        (Engine.fieldValue_of_field? hfield)
    refine ⟨_, S, ?_, hv⟩
    rw [BodyContext.operand, hro]
    exact ho

/-! ## Matching tables -/

section Matching

variable {RB : BodyRelation F} {t t' : ClassTable F} {p : Program}

theorem BodyContext.Matches.localsAt_eq {ctx ctx' : BodyContext F} (h : ctx.Matches RB ctx')
    (L : Locals) (a b : Activity F) : ctx'.localsAt L a b = ctx.localsAt L a b := by
  unfold localsAt
  simp only [h.statement_eq]

theorem ClassTable.Matches.methodContext (h : t.Matches RB t') {c c' : Template F}
    (hc : c.Matches t.lowering RB c') (m : MethodDecl) (rt : Option Ty) :
    (m.context t c rt).Matches RB (m.context t' c' rt) where
  table := h
  base := hc.base
  params := by simp only [MethodDecl.context, MethodDecl.typeParams, hc.generics]
  this? := by simp only [MethodDecl.context, Template.selfType, hc.name, hc.generics]
  returnType := rfl

/-- The checker starts on a member with the same locals against matching tables. -/
theorem Program.Opens.matching (h : t.Matches RB t') {member : Member F} {ctx : BodyContext F}
    {L : Locals} (hopens : p.Opens t member ctx L) :
    ∃ ctx', ctx.Matches RB ctx' ∧ p.Opens t' member ctx' L := by
  have hclass : ∀ {name : String} {c : Template F}, t.get? name = some c →
      ∃ c', t'.get? name = some c' ∧ c.Matches t.lowering RB c' := by
    intro name c hget
    rcases rel_elim (h.get? name) with ⟨hnone, -⟩ | ⟨c₁, c', h1, h2, hc⟩
    · cases hnone.symm.trans hget
    · cases h1.symm.trans hget
      exact ⟨c', h2, hc⟩
  cases hopens with
  | @method d m cls rt _ hd hm hcls hrt hL =>
    obtain ⟨cls', hcls', hc⟩ := hclass hcls
    have hctx := h.methodContext hc m rt
    have hparams : m.typeParams cls' = m.typeParams cls := hctx.params
    refine ⟨_, hctx, .method hd hm hcls' ?_ ?_⟩
    · rw [hparams]
      unfold MethodDecl.loweredReturn at hrt ⊢
      simpa only [h.lower_eq] using hrt
    · rwa [hctx.initialLocals_eq]
  | constructor hd hk hcls hL =>
    obtain ⟨cls', hcls', hc⟩ := hclass hcls
    have hctx := h.constructorContext hc
    exact ⟨_, hctx, .constructor hd hk hcls' (by rwa [hctx.initialLocals_eq])⟩

/-- The checker comes to the same parts of bodies with the same locals against matching tables. -/
theorem Occurs.matching [HostFunctions F] {eng : Engine F} (h : t.Matches RB t')
    {start N : Moment F} {ctx : BodyContext F} {L : Locals} (hN : Occurs eng p t start ctx L N) :
    ∃ ctx', ctx.Matches RB ctx' ∧ Occurs eng p t' start ctx' L N := by
  induction hN with
  | opens hreach hmember hstep hcode hopens =>
    obtain ⟨ctx', hctx, hopens'⟩ := hopens.matching h
    exact ⟨ctx', hctx, .opens hreach hmember hstep hcode hopens'⟩
  | inner _ hstep hcode hL' ih =>
    obtain ⟨ctx', hctx, hM⟩ := ih
    exact ⟨ctx', hctx, .inner hM hstep hcode (by rwa [hctx.localsAt_eq])⟩

end Matching

/-! ## Runs -/

/--
An analysed monomorphic program is well typed in a regular table of its engine, which matches the
table of the checker.
-/
theorem Program.IsMonomorphic.wellTyped_of_analysed {p p' : Program} (hp : p.IsMonomorphic)
    (h : p.analyse standard = .ok p') {eng : Engine StandardFn} (hserves : eng.Serves p')
    (hregular : eng.table.Regular) :
    ∃ t, ∃ RB : BodyRelation StandardFn, ClassTable.build p standard = .ok t ∧
      t.Matches RB eng.table ∧ p'.WellTyped eng.table := by
  have hfindings := Program.analyse_ok_iff.mp h
  have hmonomorphic := hp.analysed hfindings
  obtain ⟨t, p₁, hbuild, hexpand, rfl, -, -, hcheck⟩ := Program.analyseFindings_ok hfindings
  have hresolves := ClassTable.resolves_of_build hbuild NativeRegistry.standard_wellNamed
  have hsuper : (Option.map (List.map Expr.regroup)) none = none := rfl
  obtain ⟨t', hbuild', hmatch⟩ := ClassTable.build_expanded hbuild hresolves hp.plainGenerics
    Stmt.regroupAll hsuper hexpand
  obtain rfl : t' = eng.table := Except.ok.inj (hbuild'.symm.trans hserves.build)
  exact ⟨t, _, hbuild, hmatch, hbuild', hmonomorphic, hregular,
    hmatch.check_program_eq p₁.regroup ▸ hcheck⟩

/--
A run of a monomorphic program that analysis accepts, over a regular table, reads from a field or a
bare name, whatever object the field is in, a variable whose class passes as the type that the
checker has found there.
-/
theorem reads_pass {p p' : Program} (hp : p.IsMonomorphic) (h : p.analyse standard = .ok p')
    {eng : Engine StandardFn} (hserves : eng.Serves p') (hregular : eng.table.Regular) :
    ∃ t, ClassTable.build p standard = .ok t ∧
      ∀ N e v, Reaches eng (.first eng) N → N.Reads eng e v →
        (∃ ctx L, Occurs eng p' t (.first eng) ctx L N) ∧
        ∀ ctx L, Occurs eng p' t (.first eng) ctx L N →
          ∃ o, ctx.operand L e = .ok o ∧ ∀ ty, o = .value ty → t.check v.ty ty = true := by
  obtain ⟨t, RB, hbuild, hmatch, htyped⟩ := hp.wellTyped_of_analysed h hserves hregular
  obtain ⟨t', hbuild', hchecked⟩ := Engine.runsChecked_of_analysed h hserves
  cases hbuild.symm.trans hbuild'
  have hfirst := Moment.sound_first hserves
  refine ⟨t, hbuild, fun N e v hreach hread => ⟨?_, fun ctx L hN => ?_⟩⟩
  · exact hchecked.exists_occurs hfirst rfl hreach hread.isCode
  · obtain ⟨ctx', hctx, hN'⟩ := hN.matching hmatch
    obtain ⟨κ, W, hmoment⟩ := hN'.typedAt htyped hfirst (.activity .fresh trivial)
    obtain ⟨o, V, ho, hv⟩ := hread.means htyped hmoment
    refine ⟨o, by rw [← hctx.operand_eq, ho], fun ty hty => ?_⟩
    subst hty
    have hpasses : eng.table.check v.ty ty.resolved = true := hv.passes
    rwa [ClassTable.check_target, hmatch.check_eq] at hpasses

/--
Whether a visit reads a field or a bare name that the checker has found a type for, and the variable
and the type pass a test.
-/
def Visit.reads (eng : Engine StandardFn) (v : Visit StandardFn)
    (test : BodyContext StandardFn → Variable StandardFn → Ty → Bool) : Bool :=
  match v.view?, v.moment.activity with
  | some (ctx, L), .expression e =>
    match ctx.operand L e, eng.eval (.atDepth eng v.moment.depth) e v.moment.machine with
    | .ok (.value ty), .ok w _ => e.isAccess && test ctx w ty
    | _, _ => false
  | _, _ => false

theorem Visit.Sound.of_reads {eng : Engine StandardFn} {p : Program} {t : ClassTable StandardFn}
    {start : Moment StandardFn} {v : Visit StandardFn} (hv : v.Sound eng p t start)
    {test : BodyContext StandardFn → Variable StandardFn → Ty → Bool}
    (h : v.reads eng test = true) :
    ∃ e w ctx L ty, v.moment.Reads eng e w ∧ Occurs eng p t start ctx L v.moment ∧ ctx.table = t ∧
      ctx.operand L e = .ok (.value ty) ∧ test ctx w ty = true := by
  unfold reads at h
  split at h
  · next ctx L e hview hactivity =>
    have hoccurs := hv.occurs ctx L hview
    obtain ⟨member, L₀, hopens⟩ := hoccurs.opened
    split at h
    · next ty w m ho heval =>
      obtain ⟨haccess, htest⟩ := Bool.and_eq_true_iff.mp h
      have hreads : v.moment.Reads eng e w := by
        obtain ⟨⟨n, activity, m₀⟩, view⟩ := v
        cases hactivity
        exact .access haccess heval
      exact ⟨e, w, ctx, L, ty, hreads, hoccurs, hopens.get?_owner.1, ho, htest⟩
    · cases h
  · cases h

open Build in
/-- An object whose class declares a field of its base class again, boxed, is read as of the base. -/
def roomsProgram : Program :=
  program
    [{ name := ident "House", fields := [field "int" "rooms"] },
     { name := ident "Flat", base := some (ty "House"), fields := [field "Integer" "rooms"],
       constructors := [constructor [] [assign "rooms" (int 2)]] },
     { name := ident "Main",
       methods := [mainMethod
         [localVariable "House" "house" (some (new "Flat" [])),
          localVariable "int" "rooms" (some (fieldOf (var "house") "rooms"))]] }]

theorem reads_pass_rooms : ∃ p' eng t N e v ctx L ty, roomsProgram.IsMonomorphic ∧
    roomsProgram.analyse standard = .ok p' ∧ Engine.new p' standard = .ok eng ∧
    eng.table.Regular ∧ Reaches eng (.first eng) N ∧ N.Reads eng e v ∧
    Occurs eng p' t (.first eng) ctx L N ∧ ctx.operand L e = .ok (.value ty) ∧
    ty.isPrimitive = true ∧ v.ty.isPrimitive = false ∧ t.check v.ty ty = true := by
  have hp : roomsProgram.IsMonomorphic := by decide +kernel
  have hvisits : roomsProgram.visits [0, 0, 0, 0, 1, 0, 1] (fun eng v =>
      decide eng.table.Regular &&
        v.reads eng fun _ w ty => ty.isPrimitive && !w.ty.isPrimitive) = true := by
    decide +kernel
  obtain ⟨p', t, eng, v, hanalyse, hbuild, hnew, hv, htest⟩ := Program.visits_ok hvisits
  obtain ⟨hregular, hreads⟩ := Bool.and_eq_true_iff.mp htest
  have hregular := of_decide_eq_true hregular
  obtain ⟨e, w, ctx, L, ty, hread, hoccurs, -, ho, htypes⟩ := hv.of_reads hreads
  obtain ⟨hprimitive, hboxed⟩ := Bool.and_eq_true_iff.mp htypes
  obtain ⟨t', hbuild', hpasses⟩ := reads_pass hp hanalyse ⟨eng, hnew, rfl⟩ hregular
  cases hbuild.symm.trans hbuild'
  obtain ⟨o, ho', hpass⟩ := (hpasses v.moment e w hv.reaches hread).2 ctx L hoccurs
  cases ho.symm.trans ho'
  exact ⟨p', eng, t, v.moment, e, w, ctx, L, ty, hp, hanalyse, hnew, hregular, hv.reaches, hread,
    hoccurs, ho, hprimitive, by simpa using hboxed, hpass ty rfl⟩

/-! ## The conditions -/

open Build in
/-- A program with classes of dogs and of cats, whose ages are of different types. -/
def agesProgram (classes : List ClassDecl) (body : List Stmt) : Program :=
  program
    ([{ name := ident "Dog", fields := [field "int" "age"] },
      { name := ident "Cat", fields := [field "String" "age"] }] ++
      classes ++ [{ name := ident "Main", methods := [mainMethod body] }])
    [importPath "java.util.List"]

open Build in
/--
Accepted programs without casts and generic declarations, each with a way to a field that is read as
something else.
-/
def mistypedPrograms : List (Program × List Nat) :=
  [ -- A field is declared again with another type.
    (agesProgram
      [{ name := ident "House", fields := [field "Dog" "pet"] },
       { name := ident "Flat", base := some (ty "House"), fields := [field "Cat" "pet"] }]
      [localVariable "House" "house" (some (new "Flat" [])),
       localVariable "Dog" "pet" (some (fieldOf (var "house") "pet"))],
      [0, 0, 0, 0, 1, 0, 1]),
    -- A class without parameters that extends a list of cats passes as a list of dogs.
    (agesProgram
      [{ name := ident "Kennel", base := some (ty "List<Cat>") }]
      [localVariable "Kennel" "kennel" (some (new "Kennel" [])),
       expr (call (var "kennel") "add" [new "Cat" []]),
       localVariable "List<Dog>" "dogs" (some (var "kennel")),
       readAge (call (var "dogs") "get" [int 0])],
      [0, 0, 0, 0, 1, 1, 1, 0, 1]),
    -- What passes as a box does not pass as its primitive, so another method is found for it.
    (agesProgram
      [{ name := ident "Size", base := some (ty "Integer") },
       { name := ident "Shop",
         methods := [method "size" (some "Integer") [] [returns (some (int 1))]] },
       { name := ident "Tailor", base := some (ty "Shop"),
         methods := [makes "size" "Size" "Size"] },
       { name := ident "Pound",
         methods := [{ makes "find" "Cat" "Cat" with parameters := [param "Object" "o"] }] },
       { name := ident "Shelter", base := some (ty "Pound"),
         methods := [{ makes "find" "Dog" "Dog" with parameters := [param "int" "n"] }] }]
      [localVariable "Shop" "shop" (some (new "Tailor" [])),
       localVariable "Shelter" "shelter" (some (new "Shelter" [])),
       readAge (call (var "shelter") "find" [call (var "shop") "size" []])],
      [0, 0, 0, 0, 1, 1, 0, 1]),
    -- A method in the place of one that returns a dog returns a cat.
    (agesProgram
      [{ name := ident "House", methods := [makes "pet" "Dog" "Dog"] },
       { name := ident "Flat", base := some (ty "House"), methods := [makes "pet" "Cat" "Cat"] }]
      [localVariable "House" "house" (some (new "Flat" [])),
       readAge (call (var "house") "pet" [])],
      [0, 0, 0, 0, 1, 0, 1]),
    -- A class is named like the type of the null reference, which passes as every class.
    (agesProgram
      [{ name := ident Ty.nullName, fields := [field "String" "age"] }]
      [localVariable Ty.nullName "nothing" (some (new Ty.nullName [])),
       localVariable "Dog" "dog" (some (var "nothing")),
       readAge (var "dog")],
      [0, 0, 0, 0, 1, 1, 0, 1]),
    -- A local is named `this` in a body of another class.
    (agesProgram
      [{ name := ident "Kitten", base := some (ty "Cat"),
         methods := [method "play" none []
           [block [localVariable "Dog" "this" (some (new "Dog" [])), readAge this]]] }]
      [expr (call (new "Kitten" []) "play" [])],
      [0, 0, 0, 0, 0, 0, 2, 0, 0, 0, 1, 1, 0, 1]),
    -- A loop declares a local where it goes on, and has a field of its name in its first round.
    (agesProgram
      [{ name := ident "House", fields := [field "Cat" "pet"],
         methods := [method "visit" none []
           [assign "pet" (new "Cat" []),
            forLoop (localVariable "int" "n" none) (boolean true)
              (localVariable "Dog" "pet" none) [readAge (var "pet")]]] }]
      [expr (call (new "House" []) "visit" [])],
      [0, 0, 0, 0, 0, 0, 2, 0, 0, 1, 0, 1, 0, 0, 1]),
    -- A field hides the class that an inherited body names.
    (agesProgram
      [{ name := ident "House",
         methods := [method "greet" none [] [expr (println (string "Hello"))]] },
       { name := ident "Kitchen", fields := [field "Cat" "out"] },
       { name := ident "Flat", base := some (ty "House"), fields := [field "Kitchen" "System"] }]
      [localVariable "Flat" "flat" (some (new "Flat" [])),
       fieldAssign (var "flat") "System" (new "Kitchen" []),
       expr (call (var "flat") "greet" [])],
      [0, 0, 0, 0, 1, 1, 0, 0, 2, 0, 0, 0, 0, 0]) ]

/-- Where a condition fails, a variable that is read may not pass as the type of the checker. -/
theorem mistyped_reads : mistypedPrograms.Forall fun (p, _) => ∃ p' eng t N e v ctx L ty,
    (p.EachType fun _ => TypeUse.CastsNothing) ∧
    (∀ c ∈ p.classes, c.generics = [] ∧ ∀ m ∈ c.methods, m.generics = []) ∧
    p.analyse standard = .ok p' ∧ ClassTable.build p standard = .ok t ∧
    Engine.new p' standard = .ok eng ∧ Reaches eng (.first eng) N ∧ N.Reads eng e v ∧
    Occurs eng p' t (.first eng) ctx L N ∧ ctx.operand L e = .ok (.value ty) ∧
    t.check v.ty ty = false := by
  have hplain : ∀ entry ∈ mistypedPrograms, (entry.1.EachType fun _ => TypeUse.CastsNothing) ∧
      ∀ c ∈ entry.1.classes, c.generics = [] ∧ ∀ m ∈ c.methods, m.generics = [] := by
    decide +kernel
  have hvisits : ∀ entry ∈ mistypedPrograms, entry.1.visits entry.2 (fun eng v =>
      v.reads eng fun ctx w ty => !ctx.table.check w.ty ty) = true := by
    decide +kernel
  refine List.forall_iff_forall_mem.mpr fun entry hentry => ?_
  obtain ⟨hcasts, hgenerics⟩ := hplain entry hentry
  obtain ⟨p', t, eng, v, hanalyse, hbuild, hnew, hv, htest⟩ :=
    Program.visits_ok (hvisits entry hentry)
  obtain ⟨e, w, ctx, L, ty, hread, hoccurs, rfl, ho, hfails⟩ := hv.of_reads htest
  exact ⟨p', eng, ctx.table, v.moment, e, w, ctx, L, ty, hcasts, hgenerics, hanalyse, hbuild, hnew,
    hv.reaches, hread, hoccurs, ho, by simpa using hfails⟩

end Middleweight
