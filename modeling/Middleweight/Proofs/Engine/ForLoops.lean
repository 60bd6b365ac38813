import Middleweight.Proofs.Engine.ExtraLevels
import Middleweight.Proofs.Engine.Notes

/-!
# A `for` loop is a `while` loop

A `for` loop declares what its header declares at a level of its own, and each round has a level
inside that one. The block that says the same with `while` has one level more in each round: the
block of the body is inside the body of the `while`, and the update is executed at that level. Nothing
is declared there, so the two end alike, whatever the rounds do.

* `Engine.rounds_update` : an update can be moved to the end of the body
* `Engine.alike_forLoop` : the two statements end alike on machines that are alike
* `for_loop_is_while` : the two statements on one machine
-/

namespace Middleweight

variable {F : Type}

/-! ## Rounds -/

namespace Engine

/-- A round followed by an update. -/
def withUpdate (body : EvalM F (Flow F)) (update : EvalM F Unit) : EvalM F (Flow F) := do
  match ← body with
  | .returned v => return .returned v
  | .normal => do
    update
    return .normal

/-- What is done after each round can be done at its end. -/
theorem rounds_update (test : EvalM F Bool) (body : EvalM F (Flow F)) (update : EvalM F Unit)
    (n : Nat) :
    rounds test body update n = rounds test (withUpdate body update) (pure ()) n := by
  induction n with
  | zero => rfl
  | succ n ih =>
    rw [rounds, rounds]
    refine bind_congr fun holds => ?_
    cases holds with
    | false => rfl
    | true =>
      rw [ih]
      generalize rounds test (withUpdate body update) (pure ()) n = next
      show (body >>= _) = (withUpdate body update >>= _)
      rw [withUpdate, bind_assoc]
      refine bind_congr fun flow => ?_
      cases flow with
      | returned v => rfl
      | normal =>
        show (update >>= _) = ((update >>= fun _ => pure Flow.normal) >>= _)
        rw [bind_assoc]
        rfl

variable [HostFunctions F] {eng : Engine F} {calls : Calls F}

theorem execBlock_singleton (s : Stmt) : eng.execBlock calls [s] = eng.exec calls s := by
  rw [execBlock]
  refine Eq.trans (bind_congr fun flow => ?_) (bind_pure _)
  cases flow with
  | returned v => rfl
  | normal => rw [execBlock]

/-- A statement without `return` goes on to the next one. -/
theorem exec_normal {s : Stmt} (hs : s.returnForms = []) {m m' : Machine F} {flow : Flow F}
    (h : eng.exec calls s m = .ok flow m') : flow = .normal := by
  cases flow with
  | normal => rfl
  | returned v =>
    have hform := exec_returnForms h
    rw [hs] at hform
    cases hform

/-- A `for` loop and the block with a `while` loop that says the same. The update is executed at a level
that the block alone has, which makes no difference as long as it declares nothing there. -/
theorem alike_forLoop (hcalls : calls.Blind eng) {init update : Stmt}
    (hinit : init.returnForms = []) (hupdate : update.returnForms = [])
    (hlocal : update.isLocal = false) (test : Expr) (body : List Stmt) (s s₁ s₂ s₃ : Span)
    {shape : List Bool} :
    EvalM.Alike eng.table shape (eng.exec calls (.forLoop init test update body s))
      (eng.exec calls (.block [init, .whileLoop test [.block body s₁, update] s₂] s₃)) := by
  have hround : EvalM.Alike eng.table (true :: shape)
      (withUpdate (EvalM.nested (eng.execBlock calls body)) (do let _ ← eng.exec calls update))
      (EvalM.nested (eng.execBlock calls [.block body s₁, update])) := by
    refine .nested_right ?_
    rw [execBlock, execBlock_singleton, exec, bind_assoc]
    refine alike_tell_right (.bind (.nested (blind_execBlock hcalls body)) fun flow => ?_) _
    cases flow with
    | returned v => exact .pure _
    | normal =>
      have hexec : eng.Blind (false :: true :: shape) (eng.exec calls update) :=
        blind_exec hcalls update fun h => absurd (hlocal.symm.trans h) Bool.false_ne_true
      dsimp only
      rw [bind_assoc, ← bind_pure (eng.exec calls update), bind_assoc]
      refine hexec.bind_of fun flow hflow => ?_
      obtain ⟨m, m₁, hflow⟩ := hflow
      rw [exec_normal hupdate hflow]
      exact .pure _
  have hheader : EvalM.Alike eng.table (true :: shape)
      (eng.exec calls init >>= fun _ => rounds (eng.condition calls test)
        (EvalM.nested (eng.execBlock calls body)) (do let _ ← eng.exec calls update) calls.rounds)
      (eng.execBlock calls [init, .whileLoop test [.block body s₁, update] s₂]) := by
    rw [execBlock, execBlock_singleton, exec, rounds_update]
    refine (blind_exec hcalls init fun _ => rfl).bind_of fun flow hflow => ?_
    obtain ⟨m, m₁, hflow⟩ := hflow
    rw [exec_normal hinit hflow]
    exact alike_tell_right (alike_rounds (blind_condition hcalls test) hround (.pure _) _) _
  rw [exec, exec]
  exact .bind (alike_tellStatement _ _) fun _ => .nested hheader

end Engine

/-! ## The state that is left -/

/-- Two machines with the same objects, static fields, open calls, output and variables, level by
level. -/
structure Machine.SameState (m m' : Machine F) : Prop where
  heap : m'.heap = m.heap
  statics : m'.statics = m.statics
  stack : m'.stack = m.stack
  output : m'.output = m.output
  context : m'.scope.context = m.scope.context
  locals : m'.scope.levels.map Level.locals = m.scope.levels.map Level.locals

/-- Two statements end in the same way, normally, with a returned value or with an error, and leave
the same state. -/
inductive EvalM.SameEnd {α : Type} :
    EStateM.Result (Stop F) (Machine F) α → EStateM.Result (Stop F) (Machine F) α → Prop
  | ok {a : α} {m m' : Machine F} : m.SameState m' → SameEnd (.ok a m) (.ok a m')
  | error {e : Stop F} {m m' : Machine F} : m.SameState m' → SameEnd (.error e m) (.error e m')

theorem LevelsAlike.locals_eq {t : ClassTable F} {shape : List Bool} {ls ls' : List (Level F)}
    (h : LevelsAlike t shape ls ls') (hshape : false ∉ shape) :
    ls'.map Level.locals = ls.map Level.locals := by
  induction h with
  | nil => rfl
  | both hl _ _ _ _ ih =>
    rw [List.map_cons, List.map_cons, hl, ih fun hmem => hshape (List.mem_cons_of_mem _ hmem)]
  | extra => exact absurd List.mem_cons_self hshape

theorem Machine.Alike.sameState {t : ClassTable F} {shape : List Bool} {m m' : Machine F}
    (h : m.Alike t shape m') (hshape : false ∉ shape) : m.SameState m' :=
  ⟨h.heap, h.statics, h.stack, h.output, h.scope.context, h.scope.levels.locals_eq hshape⟩

/-- A `for` loop ends as the block does that executes what its header begins with and then a `while`
loop of its test and of its body, as a block, followed by its update. Whatever the scope and the heap
are, both end normally, return the same value or stop with the same error, and leave the same output,
variables and heap. The update declares no variable, and neither header statement returns; what the
machine remembers of classes is valid, as it is in all runs. -/
theorem for_loop_is_while [HostFunctions F] (eng : Engine F) (n : Nat) (init : Stmt) (test : Expr)
    (update : Stmt) (body : List Stmt) (s s₁ s₂ s₃ : Span) (hinit : init.returnForms = [])
    (hupdate : update.returnForms = []) (hlocal : update.isLocal = false) {m : Machine F}
    (hm : m.Remembers eng.table) :
    EvalM.SameEnd (eng.exec (.atDepth eng n) (.forLoop init test update body s) m)
      (eng.exec (.atDepth eng n)
        (.block [init, .whileLoop test [.block body s₁, update] s₂] s₃) m) := by
  have hshape : false ∉ m.scope.levels.map fun _ => true := by simp
  have hends := Engine.alike_forLoop (Calls.blind_atDepth eng n) hinit hupdate hlocal test body
    s s₁ s₂ s₃ hm.alike
  generalize eng.exec (.atDepth eng n) (.forLoop init test update body s) m = r at hends ⊢
  generalize eng.exec (.atDepth eng n) (.block _ s₃) m = r' at hends ⊢
  cases hends with
  | ok h => exact .ok (h.sameState hshape)
  | error h => exact .error (h.sameState hshape)

open Build in
/-- A program with nothing in it but a main method. -/
def quietProgram : Program := program [{ name := ident "Main", methods := [mainMethod []] }]

/-- Whether a statement executed from the start ends normally and prints a text. -/
def Engine.execPrints (eng : Engine StandardFn) (s : Stmt) (text : String) : Bool :=
  match eng.exec (.atDepth eng 8) s {} with
  | .ok .normal m => m.output == text
  | _ => false

open Build in
/-- `for (int i = 0; i < 3; i++)`, with a body. -/
def countingLoop (body : List Stmt) : Stmt :=
  forLoop (localVariable "int" "i" (some (int 0))) (binary (var "i") .lt (int 3))
    (expr (postIncrement (var "i"))) body

open Build in
/-- The block that says the same with `while`. -/
def countingBlock (body : List Stmt) : Stmt :=
  block [localVariable "int" "i" (some (int 0)), whileLoop (binary (var "i") .lt (int 3))
    [block body, expr (postIncrement (var "i"))]]

open Build in
/-- A loop that prints what it counts, and the block with a `while` loop beside it. -/
theorem for_loop_is_while_counting : ∃ body eng m, Engine.new quietProgram .standard = .ok eng ∧
    eng.exec (.atDepth eng 8) (countingLoop body) {} = .ok .normal m ∧ m.output = "0\n1\n2\n" ∧
    EvalM.SameEnd (.ok .normal m) (eng.exec (.atDepth eng 8) (countingBlock body) {}) := by
  have hprints : (match Engine.new quietProgram .standard with
      | .ok eng => eng.execPrints
          (countingLoop [expr (println (call (var "Integer") "toString" [var "i"]))]) "0\n1\n2\n"
      | .error _ => false) = true := by
    decide +kernel
  split at hprints
  · next eng hnew =>
    unfold Engine.execPrints at hprints
    split at hprints
    · next m hexec =>
      have hmemory : ({} : Machine StandardFn).Remembers eng.table :=
        ⟨.empty, List.forall_mem_singleton.mpr .empty⟩
      have hsame := for_loop_is_while eng 8 (localVariable "int" "i" (some (int 0)))
        (binary (var "i") .lt (int 3)) (expr (postIncrement (var "i")))
        [expr (println (call (var "Integer") "toString" [var "i"]))] {} {} {} {} rfl rfl rfl hmemory
      rw [show eng.exec (.atDepth eng 8) (.forLoop _ _ _ _ {}) {} = _ from hexec] at hsame
      exact ⟨_, eng, m, hnew, hexec, beq_iff_eq.mp hprints, hsame⟩
    · cases hprints
  · cases hprints

end Middleweight
