import Middleweight.Analysis.TypeCheck
import Middleweight.Engine.Exec
import Middleweight.Proofs.Engine.Parts

/-!
# What executions return

A flow that returns comes from one of the `return` statements in what is executed, and carries a
value if that one does. Statements with a `return` among them do not end without one.

* `Stmt.returnForms` : the `return` statements in a statement
* `Engine.exec_returnForms`, `Engine.execBlock_returnForms` : flows that return
* `Engine.execBlock_returns` : statements with a `return` among them
-/

namespace Middleweight

namespace Stmt

mutual

/-- For each `return` in a statement, whether it carries a value. -/
def returnForms : Stmt → List Bool
  | ifElse _ thenBranch none _ => allReturnForms thenBranch
  | ifElse _ thenBranch (some elseBranch) _ =>
    allReturnForms thenBranch ++ allReturnForms elseBranch
  | whileLoop _ body _ => allReturnForms body
  | forLoop init _ update body _ => returnForms init ++ returnForms update ++ allReturnForms body
  | returns value _ => [value.isSome]
  | block body _ => allReturnForms body
  | _ => []

/-- The same for all of some statements. -/
def allReturnForms : List Stmt → List Bool
  | [] => []
  | s :: rest => returnForms s ++ allReturnForms rest

end

end Stmt

namespace Engine

variable {F : Type} [HostFunctions F] {eng : Engine F} {calls : Calls F}

omit [HostFunctions F] in
/-- What rounds return, the body of one of them has returned. -/
theorem rounds_returned {test : EvalM F Bool} {body : EvalM F (Flow F)} {update : EvalM F Unit}
    {v : Option (Variable F)} : ∀ (n : Nat) {m m' : Machine F},
    rounds test body update n m = .ok (.returned v) m' → ∃ m₁ m₂, body m₁ = .ok (.returned v) m₂
  | 0, _, _, h => by cases h
  | n + 1, m, m', h => by
    obtain ⟨b, m₁, -, h⟩ := EvalM.ok_of_bind h
    cases b with
    | false => cases h
    | true =>
      obtain ⟨flow, m₂, hbody, h⟩ := EvalM.ok_of_bind h
      cases flow with
      | returned w =>
        cases h
        exact ⟨m₁, _, hbody⟩
      | normal =>
        obtain ⟨_, m₃, -, h⟩ := EvalM.ok_of_bind h
        exact rounds_returned n h

theorem returnValue_isSome {e? : Option Expr} {m m' : Machine F} {v : Option (Variable F)}
    (h : eng.returnValue calls e? m = .ok v m') : v.isSome = e?.isSome := by
  cases e? with
  | none =>
    cases h
    rfl
  | some e =>
    obtain ⟨w, m₁, -, h⟩ := EvalM.ok_of_bind h
    cases h
    rfl

mutual

/-- A flow that returns comes from a `return` statement, and carries a value if that one does. -/
theorem exec_returnForms : ∀ {s : Stmt} {m m' : Machine F} {v : Option (Variable F)},
    eng.exec calls s m = .ok (.returned v) m' → v.isSome ∈ s.returnForms
  | .localVariable _ _ _ _, _, _, _, h => by
    rw [exec] at h
    obtain ⟨_, _, -, h⟩ := EvalM.ok_of_bind h
    obtain ⟨_, _, -, h⟩ := EvalM.ok_of_bind h
    obtain ⟨_, _, -, h⟩ := EvalM.ok_of_bind h
    obtain ⟨_, _, -, h⟩ := EvalM.ok_of_bind h
    cases h
  | .assign _ _ _ _, _, _, _, h | .fieldAssign _ _ _ _ _, _, _, _, h
  | .expression _ _, _, _, _, h => by
    rw [exec] at h
    obtain ⟨_, _, -, h⟩ := EvalM.ok_of_bind h
    obtain ⟨_, _, -, h⟩ := EvalM.ok_of_bind h
    cases h
  | .ifElse _ thenBranch none _, _, _, _, h => by
    rw [exec] at h
    obtain ⟨_, _, -, h⟩ := EvalM.ok_of_bind h
    obtain ⟨b, _, -, h⟩ := EvalM.ok_of_bind h
    cases b with
    | false => cases h
    | true =>
      obtain ⟨_, hbranch, -⟩ := EvalM.ok_of_nested h
      simpa [Stmt.returnForms] using execBlock_returnForms hbranch
  | .ifElse _ thenBranch (some elseBranch) _, _, _, _, h => by
    rw [exec] at h
    obtain ⟨_, _, -, h⟩ := EvalM.ok_of_bind h
    obtain ⟨b, _, -, h⟩ := EvalM.ok_of_bind h
    rw [Stmt.returnForms]
    cases b with
    | false =>
      obtain ⟨_, hbranch, -⟩ := EvalM.ok_of_nested h
      exact List.mem_append_right _ (execBlock_returnForms hbranch)
    | true =>
      obtain ⟨_, hbranch, -⟩ := EvalM.ok_of_nested h
      exact List.mem_append_left _ (execBlock_returnForms hbranch)
  | .whileLoop _ body _, _, _, _, h => by
    rw [exec] at h
    obtain ⟨_, _, -, h⟩ := EvalM.ok_of_bind h
    obtain ⟨_, _, hround⟩ := rounds_returned _ h
    obtain ⟨_, hbody, -⟩ := EvalM.ok_of_nested hround
    simpa [Stmt.returnForms] using execBlock_returnForms hbody
  | .forLoop init _ update body _, _, _, _, h => by
    rw [exec] at h
    obtain ⟨_, _, -, h⟩ := EvalM.ok_of_bind h
    obtain ⟨_, h, -⟩ := EvalM.ok_of_nested h
    obtain ⟨_, _, -, h⟩ := EvalM.ok_of_bind h
    obtain ⟨_, _, hround⟩ := rounds_returned _ h
    obtain ⟨_, hbody, -⟩ := EvalM.ok_of_nested hround
    rw [Stmt.returnForms]
    exact List.mem_append_right _ (execBlock_returnForms hbody)
  | .returns value _, _, _, _, h => by
    rw [exec] at h
    obtain ⟨_, _, -, h⟩ := EvalM.ok_of_bind h
    obtain ⟨_, _, hvalue, h⟩ := EvalM.ok_of_bind h
    cases h
    simpa [Stmt.returnForms] using returnValue_isSome hvalue
  | .block body _, _, _, _, h => by
    rw [exec] at h
    obtain ⟨_, _, -, h⟩ := EvalM.ok_of_bind h
    obtain ⟨_, hbody, -⟩ := EvalM.ok_of_nested h
    simpa [Stmt.returnForms] using execBlock_returnForms hbody

theorem execBlock_returnForms : ∀ {ss : List Stmt} {m m' : Machine F} {v : Option (Variable F)},
    eng.execBlock calls ss m = .ok (.returned v) m' → v.isSome ∈ Stmt.allReturnForms ss
  | [], _, _, _, h => by
    rw [execBlock] at h
    cases h
  | s :: rest, _, _, _, h => by
    rw [execBlock] at h
    rw [Stmt.allReturnForms]
    obtain ⟨flow, _, hs, h⟩ := EvalM.ok_of_bind h
    cases flow with
    | returned w =>
      cases h
      exact List.mem_append_left _ (exec_returnForms hs)
    | normal => exact List.mem_append_right _ (execBlock_returnForms h)

end

/-- A `return` that is executed returns. -/
theorem exec_returns {s : Stmt} (hs : s.isReturn = true) {m m' : Machine F} {flow : Flow F}
    (h : eng.exec calls s m = .ok flow m') : ∃ v, flow = .returned v := by
  cases s with
  | returns value span =>
    rw [exec] at h
    obtain ⟨_, _, -, h⟩ := EvalM.ok_of_bind h
    obtain ⟨v, _, -, h⟩ := EvalM.ok_of_bind h
    cases h
    exact ⟨v, rfl⟩
  | _ => cases hs

/-- Statements with a `return` among them end with one. -/
theorem execBlock_returns : ∀ {ss : List Stmt}, ss.any Stmt.isReturn = true →
    ∀ {m m' : Machine F} {flow : Flow F}, eng.execBlock calls ss m = .ok flow m' →
    ∃ v, flow = .returned v
  | [], hss, _, _, _, _ => by cases hss
  | s :: rest, hss, m, m', flow, h => by
    rw [execBlock] at h
    obtain ⟨flow₁, m₁, hs, h⟩ := EvalM.ok_of_bind h
    cases flow₁ with
    | returned v =>
      cases h
      exact ⟨v, rfl⟩
    | normal =>
      rw [List.any_cons, Bool.or_eq_true] at hss
      rcases hss with hreturn | hrest
      · obtain ⟨v, hv⟩ := exec_returns hreturn hs
        cases hv
      · exact execBlock_returns hrest h

end Engine

end Middleweight
