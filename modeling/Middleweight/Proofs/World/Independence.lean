import Middleweight.Proofs.Analysis.ExpandedRun
import Middleweight.Proofs.ClassTable.Order
import Middleweight.Proofs.World.History
import Middleweight.Proofs.World.Output

/-!
# Runs after other operations

A host can go on with an engine that it has used before. The machine then remembers classes, has
objects on its heap, has written output, and may have made the standard output already; but a run
sees nothing of it. To show this the engine is compared with itself: on the left it starts afresh,
on the right from the machine that a history has left.

The standard output is an object like others, made by the first read. On the right it may be there
from the start; it has no contents and no constructors, so that it makes no difference when it is
made, except that making it takes one call of the budget.

* `EnginePair.sparesMade_output` : the standard output can be made at every time
* `run_independent` : a run after any history is reported as one of a fresh engine
-/

namespace Middleweight

variable {F : Type}

/-! ## An engine beside itself -/

/-- A built table matches itself, with every body the same. -/
theorem ClassTable.matches_self_of_build {t : ClassTable F} {p : Program}
    {natives : NativeRegistry F} (h : build p natives = .ok t) :
    t.Matches (fun _ b b' => b' = b) t :=
  .of_classes rfl rfl (List.forall₂_same.mpr fun _ hc => matches_self_of_mem h hc)

/-! ## Making the standard output -/

/--
The standard output can be made whenever it is read first: there is a call of the budget left for
it, or the left engine may run out of its budget first.
-/
theorem EnginePair.sparesMade_output {P : EnginePair StandardFn} {p : Program}
    (h : ClassTable.build p .standard = .ok P.left.table) (hearly : P.early ≠ .neither)
    (hspare : ∀ key c', P.spare = some (key, c') →
      ∃ c, P.left.table.Instantiates ⟨Ty.printStreamName, []⟩ c ∧ P.Classes c c') :
    P.SparesMade := by
  intro n n' c c' owner name field m span hn hshows howner hkey hm
  obtain ⟨d, hd, hclasses⟩ := hspare _ _ hkey
  obtain ⟨hext, k, hk, hfield⟩ := Engine.staticFieldOwner?_eq_some rfl rfl howner
  obtain ⟨-, -, hinit, hlower⟩ :=
    ClassTable.staticField_standard h (hshows.extends hext).get? hk hfield
  obtain ⟨r, hr, hread⟩ :=
    Engine.initStatic_output hd hm (Calls.atDepth P.left n) owner hinit hlower span
  unfold MakesSpare
  rw [hread]
  cases n with
  | zero =>
    refine .inl ⟨?_, _, rfl⟩
    unfold Budgets at hn
    cases heq : P.early with
    | neither => exact absurd heq hearly
    | left => rfl
    | right =>
      rw [heq] at hn
      exact absurd hn (Nat.not_lt_zero n')
  | succ n =>
    refine .inr ⟨d, r, hclasses, hr, ?_⟩
    have hmade : (Calls.atDepth P.left (n + 1)).construct d [] [] span { m with registry := r } =
        .ok ⟨m.heap.size, d⟩ { m with registry := r, heap := m.heap.push { fields := [] } } :=
      Engine.construct_output h hd (Calls.atDepth P.left n) span
    exact EvalM.bind_congr_at (y := pure _) hmade _

/-! ## Reports -/

/-- What has been written and told since some start. -/
structure Machine.Since (start m : Machine F) (r : RunReport F) : Prop where
  output : m.output = start.output ++ r.output
  events : m.events = r.events ++ start.events

/-- A computation comes to an end, and this is what can be seen of it. -/
inductive EvalM.Reports (x : EvalM F Unit) (start : Machine F) (r : RunReport F) : Prop
  | success {m : Machine F} : x start = .ok () m → r.outcome = .ok () → start.Since m r →
      Reports x start r
  | failure {e : RuntimeError F} {m : Machine F} : x start = .error (.error e) m →
      r.outcome = .error (Stop.error e).reported → start.Since m r → Reports x start r

theorem Machine.Since.ext {start m : Machine F} {r r' : RunReport F} (h : start.Since m r)
    (h' : start.Since m r') (houtcome : r.outcome = r'.outcome) : r = r' := by
  obtain ⟨outcome, output, events⟩ := r
  obtain ⟨outcome', output', events'⟩ := r'
  have houtput : output = output' := (String.append_right_inj _).mp (h.output.symm.trans h'.output)
  have hevents : events = events' := List.append_cancel_right (h.events.symm.trans h'.events)
  cases houtcome
  cases houtput
  cases hevents
  rfl

theorem EvalM.Reports.unique {x : EvalM F Unit} {start : Machine F} {r r' : RunReport F}
    (h : Reports x start r) (h' : Reports x start r') : r = r' := by
  cases h with
  | success hx houtcome hsince =>
    cases h' with
    | success hx' houtcome' hsince' =>
      cases hx.symm.trans hx'
      exact hsince.ext hsince' (houtcome.trans houtcome'.symm)
    | failure hx' _ _ => cases hx.symm.trans hx'
  | failure hx houtcome hsince =>
    cases h' with
    | success hx' _ _ => cases hx.symm.trans hx'
    | failure hx' houtcome' hsince' =>
      cases hx.symm.trans hx'
      exact hsince.ext hsince' (houtcome.trans houtcome'.symm)

namespace EnginePair

variable {P : EnginePair F} {W : Pairing} {g : List String} {x y : EvalM F Unit} {r : RunReport F}

/-- Corresponding machines have been told and have written the same since their starts. -/
theorem Machines.since_iff {m m' : Machine F} (h : P.Machines W g m m') :
    P.start'.Since m' r ↔ P.start.Since m r := by
  obtain ⟨text, ho, ho'⟩ := h.output
  obtain ⟨told, he, he'⟩ := h.events
  constructor
  · intro hs
    have htext := (String.append_right_inj _).mp (ho'.symm.trans hs.output)
    have htold := List.append_cancel_right (he'.symm.trans hs.events)
    exact ⟨htext ▸ ho, htold ▸ he⟩
  · intro hs
    have htext := (String.append_right_inj _).mp (ho.symm.trans hs.output)
    have htold := List.append_cancel_right (he.symm.trans hs.events)
    exact ⟨htext ▸ ho', htold ▸ he'⟩

/-- What the left computation reports the right one does, if only the left one may run out first. -/
theorem Agree.reports_right (h : P.Agree W g Same x y) (hm : P.Machines W g P.start P.start')
    (hearly : P.early ≠ .right) (hx : x.Reports P.start r) : y.Reports P.start' r := by
  have hends := h _ _ hm
  cases hx with
  | success hx houtcome hsince =>
    rw [hx] at hends
    generalize hy : y P.start' = s at hends
    cases hends with
    | ok _ _ hm' => exact .success hy houtcome (hm'.since_iff.mpr hsince)
    | right hright => exact absurd hright hearly
  | failure hx houtcome hsince =>
    rw [hx] at hends
    generalize hy : y P.start' = s at hends
    cases hends with
    | @error V e e' m m' _ he hm' =>
      cases e' with
      | error e' =>
        exact .failure hy (houtcome.trans (congrArg _ he.symm)) (hm'.since_iff.mpr hsince)
      | exhausted => cases he
    | right hright => exact absurd hright hearly

/--
What the right computation reports the left one does, if only the right one may run out first.
-/
theorem Agree.reports_left (h : P.Agree W g Same x y) (hm : P.Machines W g P.start P.start')
    (hearly : P.early ≠ .left) (hy : y.Reports P.start' r) : x.Reports P.start r := by
  have hends := h _ _ hm
  cases hy with
  | success hy houtcome hsince =>
    rw [hy] at hends
    generalize hx : x P.start = s at hends
    cases hends with
    | ok _ _ hm' => exact .success hx houtcome (hm'.since_iff.mp hsince)
    | left hleft => exact absurd hleft hearly
  | failure hy houtcome hsince =>
    rw [hy] at hends
    generalize hx : x P.start = s at hends
    cases hends with
    | @error V e e' m m' _ he hm' =>
      cases e with
      | error e => exact .failure hx (houtcome.trans (congrArg _ he)) (hm'.since_iff.mp hsince)
      | exhausted => cases he
    | left hleft => exact absurd hleft hearly

end EnginePair

/-! ## A fresh engine and a used one -/

/-- An engine that starts afresh, beside itself with a machine that was used before. -/
def Engine.reused (eng : Engine StandardFn)
    (htable : eng.table.Matches (fun _ b b' => b' = b) eng.table) (m : Machine StandardFn)
    (early : Early) : EnginePair StandardFn where
  left := eng
  right := eng
  bodies := fun _ b b' => b' = b
  tables := htable
  source_eq := rfl
  entry_eq := rfl
  observed_eq := rfl
  sink_eq := rfl
  start := {}
  start' := m
  early
  spare := (m.statics.lookup ("java.lang.System", "out")).map fun v =>
    (("java.lang.System", "out"), v.cls)

section Reused

variable {eng : Engine StandardFn} {p : Program} (h : ClassTable.build p .standard = .ok eng.table)
  {strict : Prop} {W : World StandardFn} {m : Machine StandardFn}
  (hm : m.Valid eng.table strict W)

include h hm

/-- The standard output has no contents. -/
theorem Machine.Valid.contents_output {e : (String × String) × Variable StandardFn}
    (he : e ∈ m.statics) :
    ∃ id, e.2.value = .object ⟨id, e.2.cls⟩ ∧ m.heap[id]? = some { fields := [] } := by
  obtain ⟨-, hcls, o, hvalue, ho, hocls⟩ := hm.statics e he
  obtain ⟨⟨fields, host⟩, hi, hvalid⟩ := hm.contents ho
  obtain ⟨hslots, hlist⟩ := ClassTable.fieldless_printStream h (hocls ▸ hcls)
  have hlayout := hvalid.layout
  rw [hslots] at hlayout
  cases List.forall₂_nil_left_iff.mp hlayout
  cases host with
  | some s => exact absurd (hvalid.host s rfl).2 hlist
  | none => exact ⟨o.id, hvalue.trans (by rw [← hocls]), hi⟩

variable {htable : eng.table.Matches (fun _ b b' => b' = b) eng.table} {early : Early}

theorem Engine.machines_reused (hscope : m.scope = .global) (hstack : m.stack = []) :
    (eng.reused htable m early).Machines .empty [] {} m := by
  have hglobal : (eng.reused htable m early).Scopes .empty .global .global :=
    ⟨.global, .cons ⟨.nil, rfl, .empty, .empty⟩ .nil⟩
  refine ⟨.empty, hm.registry, False.elim, fun key => ?_, hstack, ⟨"", rfl, ?_⟩, ⟨[], rfl, rfl⟩,
    hscope ▸ hglobal, TypeParams.Within.nil⟩
  · show EnginePair.StaticFields _ _ _ key none (m.statics.lookup key)
    cases hread : m.statics.lookup key with
    | none => exact .unread
    | some v =>
      have hmem := mem_of_lookup hread
      obtain ⟨id, hvalue, hcontents⟩ := hm.contents_output h hmem
      refine .spare ⟨?_, id, hvalue, hcontents, fun k hk => hk⟩
      have hkey : key = ("java.lang.System", "out") := (hm.statics _ hmem).key
      cases hkey
      show Option.map _ (m.statics.lookup _) = _
      rw [hread]
      rfl
  · exact String.append_empty.symm

theorem Engine.sparesMade_reused (hearly : early ≠ .neither) :
    (eng.reused htable m early).SparesMade := by
  refine EnginePair.sparesMade_output h hearly fun key c hspare => ?_
  obtain ⟨v, hread, hv⟩ := Option.map_eq_some_iff.mp hspare
  cases hv
  have hcls := (hm.statics _ (mem_of_lookup hread)).cls
  refine ⟨v.cls, hcls, ?_⟩
  rcases (htable.classFor_alike (.named Ty.printStreamName) {}).elim with
    ⟨e, herror, -⟩ | ⟨c, c', hc, hc', hclasses⟩
  · cases herror.symm.trans (hcls.classFor_eq {})
  · cases hc.symm.trans (hcls.classFor_eq {})
    cases hc'.symm.trans (hcls.classFor_eq {})
    exact hclasses

/-- A fresh engine and a used one run alike. -/
theorem Engine.agree_reused (hearly : early ≠ .neither) {n n' : Nat}
    (hn : (eng.reused htable m early).Budgets n n') :
    (eng.reused htable m early).Agree .empty [] EnginePair.Same (eng.runWithin n)
      (eng.runWithin n') :=
  EnginePair.agree_runWithin (EnginePair.standard_respects _)
    (EnginePair.bodiesRun_self rfl) (Engine.sparesMade_reused h hm hearly) hn

end Reused

namespace History

variable {eng : Engine StandardFn} {p : Program} {strict : Prop}
  {given : List (ObjectRef StandardFn)} {m : Machine StandardFn} {n n' : Nat}
  {r : RunReport StandardFn}

/-- What a fresh engine reports the used one does, with no less of a budget. -/
theorem reports_used (hist : History eng strict given m) (hserves : eng.Serves p) (hn : n ≤ n')
    (hr : (eng.runWithin n).Reports {} r) : (eng.runWithin n').Reports m r := by
  have h := hserves.build
  obtain ⟨W, -, hm, -⟩ := hist.valid h
  let P := eng.reused (ClassTable.matches_self_of_build h) m .left
  have hagree : P.Agree .empty [] EnginePair.Same (eng.runWithin n) (eng.runWithin n') :=
    Engine.agree_reused h hm Early.noConfusion hn
  have hstart : P.Machines .empty [] P.start P.start' :=
    Engine.machines_reused h hm hist.scope_eq hist.stack_eq
  exact hagree.reports_right hstart Early.noConfusion hr

/-- What a used engine reports a fresh one does, with more of a budget. -/
theorem reports_fresh (hist : History eng strict given m) (hserves : eng.Serves p) (hn : n < n')
    (hr : (eng.runWithin n).Reports m r) : (eng.runWithin n').Reports {} r := by
  have h := hserves.build
  obtain ⟨W, -, hm, -⟩ := hist.valid h
  let P := eng.reused (ClassTable.matches_self_of_build h) m .right
  have hagree : P.Agree .empty [] EnginePair.Same (eng.runWithin n') (eng.runWithin n) :=
    Engine.agree_reused h hm Early.noConfusion hn
  have hstart : P.Machines .empty [] P.start P.start' :=
    Engine.machines_reused h hm hist.scope_eq hist.stack_eq
  exact hagree.reports_left hstart Early.noConfusion hr

end History

/--
A run does not depend on what was done with its engine before. Whatever a host has done, however
each operation ended: if the next run comes to an end, then so does a run of a fresh engine, and the
other way round, and they are reported alike. A fresh engine may need one call more, for the
standard output; `run` is the run within the budget of the engine.
-/
theorem run_independent {eng : Engine StandardFn} {p : Program} (hserves : eng.Serves p)
    {strict : Prop} {given : List (ObjectRef StandardFn)} {m : Machine StandardFn}
    (hist : History eng strict given m) :
    (∀ n n' r r', (eng.runWithin n).Reports m r → (eng.runWithin n').Reports {} r' → r = r') ∧
    (∀ n r, (eng.runWithin n).Reports {} r → (eng.runWithin n).Reports m r) ∧
    ∀ n r, (eng.runWithin n).Reports m r → (eng.runWithin (n + 1)).Reports {} r := by
  refine ⟨fun n n' r r' hr hr' => ?_, fun n r => hist.reports_used hserves (Nat.le_refl n),
    fun n r => hist.reports_fresh hserves (Nat.lt_succ_self n)⟩
  have hstart : History eng strict [] {} := .fresh
  -- Both are reports of one run of a fresh engine with a budget that is enough for either.
  have hfresh : (eng.runWithin (max n n' + 1)).Reports {} r :=
    hist.reports_fresh hserves (Nat.lt_succ_of_le (Nat.le_max_left n n')) hr
  have hfresh' : (eng.runWithin (max n n' + 1)).Reports {} r' :=
    hstart.reports_used hserves (Nat.le_succ_of_le (Nat.le_max_right n n')) hr'
  exact hfresh.unique hfresh'

open Build in
/-- Writes a line, for which it makes the standard output, and then fails. -/
def stumbleProgram : Program :=
  program
    [{ name := ident "Main",
       methods := [mainMethod
         [expr (println (string "a")), localVariable "String" "s" (some null),
          expr (call (var "s") "length" [])]] }]

/-- Whether a run of a fresh engine fails after it has written a line. -/
def Engine.stumbles (eng : Engine StandardFn) : Bool :=
  match eng.run {} with
  | .error (.error _) m => m.output == "a\n" && m.statics.length == 1
  | _ => false

theorem Engine.stumbles_iff {eng : Engine StandardFn} : eng.stumbles = true ↔
    ∃ e m, eng.run {} = .error (.error e) m ∧ m.output = "a\n" ∧ m.statics.length = 1 := by
  unfold stumbles
  cases hrun : eng.run {} with
  | ok _ m => simp
  | error e m =>
    cases e with
    | exhausted => simp
    | error e => simp

/-- The second run of a program that fails is reported as the first one. -/
theorem run_independent_stumble : ∃ eng e m, Engine.new stumbleProgram .standard = .ok eng ∧
    eng.run {} = .error (.error e) m ∧ m.output = "a\n" ∧ m.statics.length = 1 ∧
    eng.run.Reports m ⟨.error (Stop.error e).reported, "a\n", m.events⟩ := by
  have h : (Engine.new stumbleProgram .standard).toOption.any Engine.stumbles = true := by
    decide +kernel
  cases hnew : Engine.new stumbleProgram .standard with
  | error e => simp [hnew, Except.toOption] at h
  | ok eng =>
    rw [hnew] at h
    obtain ⟨e, m, hrun, houtput, hstatics⟩ := Engine.stumbles_iff.mp h
    have hserves : eng.Serves stumbleProgram := ⟨eng, hnew, rfl⟩
    have hperform : HostOperation.run.perform eng {} = .error (.error e) m :=
      EvalM.bind_congr_at (y := throw (.error e)) hrun _
    have hallowed : HostOperation.run.Allowed eng.table False [] := trivial
    have hist : History eng False [] m := .failure .fresh hallowed hperform
    have hfirst : eng.run.Reports {} ⟨.error (Stop.error e).reported, "a\n", m.events⟩ :=
      .failure hrun rfl ⟨houtput, (List.append_nil _).symm⟩
    exact ⟨eng, e, m, rfl, hrun, houtput, hstatics,
      (run_independent hserves hist).2.1 eng.budget _ hfirst⟩

end Middleweight
