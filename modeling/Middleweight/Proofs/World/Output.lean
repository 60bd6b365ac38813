import Middleweight.Proofs.World.Host

/-!
# Making the standard output

The standard output is an object like others, made when its static field is first read. Its class
has neither fields nor constructors; so there is nothing to it but the object itself, and making it
changes nothing but the heap and what is remembered of classes.

* `Engine.construct_output` : a new standard output
* `Engine.initStatic_output` : the first read of its static field
-/

namespace Middleweight

variable {F : Type}

namespace Engine

variable [HostFunctions F] (eng : Engine F) (calls : Calls F)

/-- Classes without constructors leave a new object as it is. -/
theorem runConstructors_of_none (o : ObjectRef F) (isStaticView : Bool) (span : Span) :
    ∀ {ls : List (Layer F)}, (∀ l ∈ ls, l.template.constructors = []) →
    eng.runConstructors calls o isStaticView ls [] [] span = pure ()
  | [], _ => rfl
  | l :: rest, hls => by
    have hnone : RuntimeClass.constructors ⟨isStaticView, l, rest⟩ = [] := by
      unfold RuntimeClass.constructors
      rw [hls l List.mem_cons_self, ite_self]
    have hdefault : eng.table.runtimeMembers.resolveConstructor eng.table
        ⟨isStaticView, l, rest⟩ [] = .ok .defaultConstructor := by
      unfold MemberSource.resolveConstructor ClassTable.runtimeMembers
      dsimp only
      rw [hnone]
      rfl
    unfold runConstructors
    dsimp only
    rw [hdefault, types_ok_bind]
    exact runConstructors_of_none o isStaticView span fun k hk => hls k (List.mem_cons_of_mem _ hk)

end Engine

namespace Engine

variable {eng : Engine StandardFn} {p : Program} (h : ClassTable.build p .standard = .ok eng.table)
  {d : RuntimeClass StandardFn} (hd : eng.table.Instantiates ⟨Ty.printStreamName, []⟩ d)
  {m : Machine StandardFn}

include h hd

/-- A new standard output has no contents, and making it changes nothing else. -/
theorem construct_output (calls : Calls StandardFn) (span : Span) :
    eng.construct calls d [] [] span m =
      .ok ⟨m.heap.size, d⟩ { m with heap := m.heap.push { fields := [] } } := by
  have hfields := ClassTable.allFields_printStream h hd
  have hnone : ∀ l ∈ d.layers, l.template.constructors = [] :=
    fun l hl => (ClassTable.layers_printStream h hd l hl).2.1
  unfold construct allocate
  rw [hfields]
  simp only [eng.runConstructors_of_none calls _ d.isStaticView span hnone]
  rfl

omit h in
/-- The standard output is made by a construction, after which its static field is there. -/
theorem initStatic_output (hm : m.Remembers eng.table) (calls : Calls StandardFn)
    (owner : RuntimeClass StandardFn) {field : NativeField StandardFn}
    (hinit : field.init = .systemOut)
    (hlower : eng.table.lower [] field.ty = .ok (.named Ty.printStreamName)) (span : Span) :
    ∃ r : Registry StandardFn, r.Valid eng.table ∧ eng.initStatic calls owner field span m =
      (do
        let o ← calls.construct d [] [] span
        let v : Variable StandardFn := ⟨d, .object o⟩
        modify fun m : Machine StandardFn =>
          { m with statics := ((owner.name, field.name), v) :: m.statics }
        return v) { m with registry := r } := by
  have hclass : eng.table.classFor (.named Ty.printStreamName) span = .ok d := hd.classFor_eq span
  obtain ⟨r, hr, hfirst⟩ := classOf_eq hm (.named Ty.printStreamName) span
  rw [hclass] at hfirst
  have hm' := hm.withMemory hr hm.current
  obtain ⟨r', hr', hsecond⟩ := classOf_eq hm' (.named Ty.printStreamName) span
  rw [hclass] at hsecond
  refine ⟨r', hr', ?_⟩
  have hcall : eng.callHost calls .systemOut ⟨owner, .null, [], span⟩
      (m.withMemory r m.scope.current.cache) =
      (do return Value.object (← calls.construct d [] [] span)) { m with registry := r' } :=
    EvalM.bind_congr_at hsecond _
  unfold initStatic
  rw [hlower, types_ok_bind, hinit]
  refine (EvalM.bind_congr_at hfirst _).trans ?_
  rw [types_ok_bind]
  refine (EvalM.bind_congr_at hcall _).trans ?_
  rw [bind_assoc]
  simp only [pure_bind]

end Engine

end Middleweight
