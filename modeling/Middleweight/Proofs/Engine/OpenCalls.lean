import Middleweight.Proofs.Engine.Built

/-!
# Open calls

Whatever a host asks of an engine, and however it ends, the calls that are open afterwards are those
that were open before. What an observer is told in between are calls that are closed again, one
inside the other, and statements with the number of calls that are open around them; and an error
lists the calls that were open before as the outermost ones.

* `Event.Nested.depth_add` : the depth of a statement, counted from what was told before it
* `Engine.Built.restored` : every computation restores the open calls
* `open_calls_restored` : so does everything that a host can do
-/

namespace Middleweight

/-! ## Nested events -/

namespace Event

/--
What an observer is told while a number of calls stays open: statements with that number, and calls
that are entered and left again with the same frame.
-/
inductive Nested : Nat → List Event → Prop
  | nil {depth : Nat} : Nested depth []
  | statement {depth : Nat} {rest : List Event} (span : Span) :
      Nested depth rest → Nested depth (.statement span depth :: rest)
  | call {depth : Nat} {inner rest : List Event} (frame : Frame) :
      Nested (depth + 1) inner → Nested depth rest →
      Nested depth (.enter frame :: inner ++ .exit frame :: rest)

/-- Whether a call starts with an event. -/
def isEnter : Event → Bool
  | enter _ => true
  | _ => false

/-- Whether a call ends with an event. -/
def isExit : Event → Bool
  | exit _ => true
  | _ => false

/-- The number of calls that some events enter. -/
def entered (told : List Event) : Nat := told.countP isEnter

/-- The number of calls that some events leave. -/
def exited (told : List Event) : Nat := told.countP isExit

namespace Nested

variable {depth : Nat} {told more : List Event}

theorem append (h : Nested depth told) (h' : Nested depth more) : Nested depth (told ++ more) := by
  induction h with
  | nil => exact h'
  | statement span _ ih => exact .statement span (ih h')
  | @call depth inner rest frame hinner _ _ ih =>
    rw [List.append_assoc, List.cons_append]
    exact .call frame hinner (ih h')

/-- Nested events leave as many calls as they enter. -/
theorem exited_eq (h : Nested depth told) : exited told = entered told := by
  induction h with
  | nil => rfl
  | statement span _ ih => simpa [exited, entered, isEnter, isExit] using ih
  | call frame _ _ ih₁ ih₂ =>
    simp only [exited, entered, List.countP_append, List.countP_cons, isEnter, isExit] at ih₁ ih₂ ⊢
    simp only [Bool.false_eq_true, if_false, if_true]
    omega

/-- A statement is told with the calls open at the start and those entered and not left since. -/
theorem depth_add (h : Nested depth told) : ∀ {before after : List Event} {span : Span} {d : Nat},
    told = before ++ .statement span d :: after → d + exited before = depth + entered before := by
  induction h with
  | nil =>
    intro before after span d h
    simp at h
  | @statement depth rest s _ ih =>
    intro before after span d h
    cases before with
    | nil =>
      cases h
      rfl
    | cons e before =>
      obtain ⟨rfl, htail⟩ := List.cons.inj h
      simpa [exited, entered, isEnter, isExit] using ih htail
  | @call depth inner rest frame hinner hrest ih₁ ih₂ =>
    intro before after span d h
    cases before with
    | nil => cases h
    | cons e before =>
      obtain ⟨rfl, htail⟩ := List.cons.inj h
      -- The statement stands after the call, or inside it.
      rcases List.append_eq_append_iff.mp htail with ⟨l, hbefore, hl⟩ | ⟨l, hinside, hl⟩
      · cases l with
        | nil => cases hl
        | cons e l =>
          cases hl
          subst hbefore
          have hd := ih₂ rfl
          have hi := hinner.exited_eq
          simp only [exited, entered, List.countP_append, List.countP_cons, isEnter,
            isExit, Bool.false_eq_true, if_false, if_true] at hd hi ⊢
          omega
      · cases l with
        | nil => cases hl
        | cons e l =>
          cases hl
          subst hinside
          have hd := ih₁ rfl
          simp only [exited, entered, List.countP_cons, isEnter, isExit, Bool.false_eq_true,
            if_false, if_true] at hd ⊢
          omega

end Nested

/--
What an observer is told while a number of calls stays open: nested events, and every statement with
that number and the calls entered and not left before it.
-/
structure WellNested (depth : Nat) (told : List Event) : Prop where
  nested : Nested depth told
  depths : ∀ before span d after, told = before ++ .statement span d :: after →
    d + exited before = depth + entered before

theorem Nested.wellNested {depth : Nat} {told : List Event} (h : Nested depth told) :
    WellNested depth told :=
  ⟨h, fun _ _ _ _ => h.depth_add⟩

end Event

/-! ## Computations that restore the open calls -/

variable {F α β : Type}

/-- The machine that a computation leaves, however it ends. -/
def finalMachine : EStateM.Result (Stop F) (Machine F) α → Machine F
  | .ok _ m => m
  | .error _ m => m

namespace Engine

/--
How a computation ends that started with some calls open: they are open again; what was told since
is nested among them, and nothing if nobody observes; and an error lists them first.
-/
structure Restored (eng : Engine F) (m : Machine F)
    (r : EStateM.Result (Stop F) (Machine F) α) : Prop where
  stack : (finalMachine r).stack = m.stack
  told : ∃ told, (finalMachine r).events = told.reverse ++ m.events ∧
    Event.WellNested m.stack.length told ∧ (eng.observed = false → told = [])
  error : ∀ e m', r = .error (.error e) m' → m.stack.reverse <+: e.stack

variable {eng : Engine F}

/-- A result that touches neither calls nor events. -/
theorem Restored.of_eq {m : Machine F} {r : EStateM.Result (Stop F) (Machine F) α}
    (hstack : (finalMachine r).stack = m.stack) (hevents : (finalMachine r).events = m.events)
    (herror : ∀ e m', r = .error (.error e) m' → m.stack.reverse <+: e.stack) :
    eng.Restored m r where
  stack := hstack
  told := ⟨[], hevents, Event.Nested.nil.wellNested, fun _ => rfl⟩
  error := herror

theorem Restored.bind {x : EvalM F α} {f : α → EvalM F β} (hx : ∀ m, eng.Restored m (x m))
    (hf : ∀ a m, eng.Restored m (f a m)) (m : Machine F) : eng.Restored m ((x >>= f) m) := by
  have h := hx m
  show eng.Restored m (EStateM.bind x f m)
  unfold EStateM.bind
  generalize x m = r at h
  cases r with
  | error e m₁ => exact ⟨h.stack, h.told, fun e' m' he => h.error e' m' (by cases he; rfl)⟩
  | ok a m₁ =>
    have hstack : m₁.stack = m.stack := h.stack
    obtain ⟨told₁, hevents₁, hnested₁, hnone₁⟩ := h.told
    have h' := hf a m₁
    dsimp only
    generalize f a m₁ = r' at h'
    obtain ⟨told₂, hevents₂, hnested₂, hnone₂⟩ := h'.told
    rw [hstack] at hnested₂
    refine ⟨h'.stack.trans hstack, ⟨told₁ ++ told₂, ?_,
      (hnested₁.nested.append hnested₂.nested).wellNested, ?_⟩, ?_⟩
    · have hevents : m₁.events = told₁.reverse ++ m.events := hevents₁
      rw [hevents₂, hevents, List.reverse_append, List.append_assoc]
    · intro hobserved
      rw [hnone₁ hobserved, hnone₂ hobserved, List.append_nil]
    · intro e m' he
      rw [← hstack]
      exact h'.error e m' he

theorem restored_tellStatement (span : Span) (m : Machine F) :
    eng.Restored m (eng.tellStatement span m) := by
  unfold tellStatement
  split
  · next hobserved =>
    have htell : eng.tell (.statement span m.stack.length) m =
        { m with events := .statement span m.stack.length :: m.events } := if_pos hobserved
    refine ⟨?_, ⟨[.statement span m.stack.length], ?_, ?_, ?_⟩, ?_⟩
    · show (eng.tell (.statement span m.stack.length) m).stack = m.stack
      rw [htell]
    · show (eng.tell (.statement span m.stack.length) m).events = _
      rw [htell]
      rfl
    · exact (Event.Nested.statement span .nil).wellNested
    · exact fun h => absurd hobserved (by simp [h])
    · intro e m' he
      cases he
  · exact .of_eq rfl rfl fun e m' he => by cases he

/-! ## Inside a call -/

/-- What is left of a call is closed and told, if somebody observes. -/
theorem popFrame_eq {m : Machine F} {frame : Frame} {rest : List Frame}
    (h : m.stack = frame :: rest) :
    eng.popFrame m = eng.tell (.exit frame) { m with stack := rest } := by
  unfold popFrame
  rw [h]

/-- Inside a call one more call is open, and it is closed on both ways out. -/
theorem Restored.withFrame {x : EvalM F α} (hx : ∀ m, eng.Restored m (x m)) (frame : Frame)
    (m : Machine F) : eng.Restored m (eng.withFrame frame x m) := by
  have h := hx (eng.pushFrame frame m)
  have hpushed : (eng.pushFrame frame m).stack = frame :: m.stack := by
    unfold pushFrame tell
    split <;> rfl
  obtain ⟨told, hevents, hnested, hnone⟩ := h.told
  have hstack := h.stack
  have herror := h.error
  rw [hpushed] at hstack hnested herror
  have hfinal : finalMachine (eng.withFrame frame x m) = eng.tell (.exit frame)
      { finalMachine (x (eng.pushFrame frame m)) with stack := m.stack } := by
    rw [← popFrame_eq hstack]
    unfold Engine.withFrame
    cases x (eng.pushFrame frame m) with
    | ok a m₁ => rfl
    | error e m₁ => rfl
  refine ⟨?_, ?_, ?_⟩
  · rw [hfinal]
    unfold tell
    split <;> rfl
  · cases hobserved : eng.observed with
    | false =>
      have htold := hnone hobserved
      refine ⟨[], ?_, Event.Nested.nil.wellNested, fun _ => rfl⟩
      rw [hfinal, tell, hobserved]
      show (finalMachine (x (eng.pushFrame frame m))).events = m.events
      rw [hevents, htold, pushFrame, tell, hobserved]
      rfl
    | true =>
      refine ⟨.enter frame :: told ++ [.exit frame], ?_,
        (Event.Nested.call frame hnested.nested .nil).wellNested, fun h => nomatch h⟩
      rw [hfinal, tell, hobserved]
      show .exit frame :: (finalMachine (x (eng.pushFrame frame m))).events = _
      rw [hevents, pushFrame, tell, hobserved]
      simp
  · intro e m' he
    have hinner : ∃ m₁, x (eng.pushFrame frame m) = .error (.error e) m₁ := by
      unfold Engine.withFrame at he
      cases hr : x (eng.pushFrame frame m) with
      | ok a m₁ => simp [hr] at he
      | error e₁ m₁ =>
        simp only [hr, EStateM.Result.error.injEq] at he
        exact ⟨m₁, by rw [he.1]⟩
    obtain ⟨m₁, hinner⟩ := hinner
    refine List.IsPrefix.trans ?_ (herror e m₁ hinner)
    rw [List.reverse_cons]
    exact List.prefix_append _ _

/-! ## Scopes and levels -/

/-- Scopes come and go without touching calls and events. -/
theorem Restored.of_scopes {m : Machine F} {s : Scope F}
    {r r' : EStateM.Result (Stop F) (Machine F) α} (h : eng.Restored { m with scope := s } r)
    (hstack : (finalMachine r').stack = (finalMachine r).stack)
    (hevents : (finalMachine r').events = (finalMachine r).events)
    (herror : ∀ e m', r' = .error (.error e) m' → ∃ m₁, r = .error (.error e) m₁) :
    eng.Restored m r' where
  stack := hstack.trans h.stack
  told := by
    obtain ⟨told, htold, hrest⟩ := h.told
    exact ⟨told, hevents.trans htold, hrest⟩
  error e m' he := by
    obtain ⟨m₁, he⟩ := herror e m' he
    exact h.error e m₁ he

theorem Restored.withScope {x : EvalM F α} (hx : ∀ m, eng.Restored m (x m)) (s : Scope F)
    (m : Machine F) : eng.Restored m (EvalM.withScope s x m) := by
  have h := hx { m with scope := s }
  unfold EvalM.withScope
  dsimp only
  generalize x { m with scope := s } = r at h
  cases r with
  | ok a m₁ => exact h.of_scopes rfl rfl fun e m' he => nomatch he
  | error e m₁ => exact h.of_scopes rfl rfl fun e' m' he => ⟨m₁, by cases he; rfl⟩

theorem Restored.nested {x : EvalM F α} (hx : ∀ m, eng.Restored m (x m)) (m : Machine F) :
    eng.Restored m (EvalM.nested x m) := by
  have h := hx { m with scope := m.scope.push }
  unfold EvalM.nested
  generalize x { m with scope := m.scope.push } = r at h
  cases r with
  | ok a m₁ => exact h.of_scopes rfl rfl fun e m' he => nomatch he
  | error e m₁ => exact h.of_scopes rfl rfl fun e' m' he => ⟨m₁, by cases he; rfl⟩

/-- Every computation of an engine restores the open calls. -/
theorem Built.restored {x : EvalM F α} (h : eng.Built x) : ∀ m, eng.Restored m (x m) := by
  induction h with
  | pure a => exact fun m => .of_eq rfl rfl fun e m' he => nomatch he
  | bind _ _ ihx ihf => exact Restored.bind ihx ihf
  | raise fault span =>
    refine fun m => .of_eq rfl rfl fun e m' he => ?_
    cases he
    exact List.prefix_refl _
  | exhausted => exact fun m => .of_eq rfl rfl fun e m' he => nomatch he
  | read => exact fun m => .of_eq rfl rfl fun e m' he => nomatch he
  | change hstack hevents _ =>
    exact fun m => .of_eq (hstack m) (hevents m) fun e m' he => nomatch he
  | statement span => exact restored_tellStatement span
  | withFrame frame _ ih => exact Restored.withFrame ih frame
  | withScope s _ ih => exact Restored.withScope ih s
  | nested _ ih => exact Restored.nested ih

end Engine

/--
Whatever a host asks of an engine, from whatever machine and however it ends, the calls that were
open are open again, what was told in between is nested among them, and an error lists them first.
-/
theorem open_calls_restored [HostFunctions F] (eng : Engine F) (m : Machine F) :
    eng.Restored m (eng.run m) ∧
    (∀ className method args span,
      eng.Restored m (eng.callStatic className method args span m)) ∧
    (∀ c args span, eng.Restored m (eng.constructObject c args span m)) :=
  ⟨eng.built_run.restored m,
    fun className method args span => (eng.built_callStatic className method args span).restored m,
    fun c args span => (eng.built_constructObject c args span).restored m⟩

end Middleweight
