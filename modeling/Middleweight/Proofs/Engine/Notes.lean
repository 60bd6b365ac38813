import Middleweight.Proofs.Analysis.ExpandedRun
import Middleweight.Proofs.Engine.Returns
import Middleweight.Proofs.World.Activity

/-!
# A `return` leaves the invocation

A body can be executed so that notes are kept of the statements that begin and of what `return`
statements return. Apart from its notes such an execution is the execution itself. A `return` is the
last thing noted, and what it returns is what the invocation gives.

That does not hold in the header of a `for` loop: what the statements there return is dropped, and
the loop goes on.

* `Engine.notedBlock`, `Engine.notes` : executions that keep notes
* `Engine.notedBlock_erases` : without the notes they are executions
* `Engine.notedBlock_exits` : what is noted at the end of a body
* `return_leaves` : a `return` outside headers ends the body and gives the result
* `return_in_header_goes_on` : a `return` in a header does not
-/

namespace Middleweight

variable {F : Type}

/-! ## Notes -/

/-- What is noted of the execution of a body. -/
inductive Note (F : Type) where
  /-- A statement begins. -/
  | begins (s : Stmt)
  /-- A `return` is done, in the header of a `for` loop or not, with its value if there is one. -/
  | returns (inHeader : Bool) (v : Option (Variable F))

/-- Computations that keep notes, the latest first. -/
abbrev NotedM (F : Type) := EStateM (Stop F) (Machine F × List (Note F))

namespace NotedM

variable {α β : Type}

/-- Makes a note. -/
def note (n : Note F) : NotedM F Unit := modify fun s => (s.1, n :: s.2)

/-- A computation of which nothing is noted. -/
def silently (x : EvalM F α) : NotedM F α := fun s =>
  match x s.1 with
  | .ok a m => .ok a (m, s.2)
  | .error e m => .error e (m, s.2)

/-- Runs a computation at a level of its own. -/
def nested (x : NotedM F α) : NotedM F α := fun s =>
  match x ({ s.1 with scope := s.1.scope.push }, s.2) with
  | .ok a s => .ok a ({ s.1 with scope := s.1.scope.pop }, s.2)
  | .error e s => .error e ({ s.1 with scope := s.1.scope.pop }, s.2)

/-- The notes that there are when a computation ends. -/
def taken : EStateM.Result (Stop F) (Machine F × List (Note F)) α → List (Note F)
  | .ok _ s | .error _ s => s.2

/-- A result without the notes. -/
def forget : EStateM.Result (Stop F) (Machine F × List (Note F)) α →
    EStateM.Result (Stop F) (Machine F) α
  | .ok a s => .ok a s.1
  | .error e s => .error e s.1

end NotedM

/-! ## Executions that keep notes -/

namespace Engine

variable [HostFunctions F] (eng : Engine F) (calls : Calls F)

/-- The rounds of a loop. -/
def notedRounds (test : EvalM F Bool) (body : NotedM F (Flow F)) (update : NotedM F Unit) :
    Nat → NotedM F (Flow F)
  | 0 => NotedM.silently EvalM.exhausted
  | n + 1 => do
    if ← NotedM.silently test then
      match ← body with
      | .returned v => return .returned v
      | .normal => do
        update
        notedRounds test body update n
    else return .normal

mutual

/-- Executes a statement, which may stand in the header of a `for` loop, and keeps notes. -/
def notedExec (inHeader : Bool) (s : Stmt) : NotedM F (Flow F) := do
  NotedM.note (.begins s)
  match s with
  | .ifElse test thenBranch none span => do
    NotedM.silently (eng.tellStatement span)
    if ← NotedM.silently (eng.condition calls test) then
      NotedM.nested (notedBlock inHeader thenBranch)
    else return .normal
  | .ifElse test thenBranch (some elseBranch) span => do
    NotedM.silently (eng.tellStatement span)
    if ← NotedM.silently (eng.condition calls test) then
      NotedM.nested (notedBlock inHeader thenBranch)
    else NotedM.nested (notedBlock inHeader elseBranch)
  | .whileLoop test body span => do
    NotedM.silently (eng.tellStatement span)
    notedRounds (eng.condition calls test) (NotedM.nested (notedBlock inHeader body)) (pure ())
      calls.rounds
  | .forLoop init test update body span => do
    NotedM.silently (eng.tellStatement span)
    NotedM.nested do
      let _ ← notedExec true init
      notedRounds (eng.condition calls test) (NotedM.nested (notedBlock inHeader body))
        (do let _ ← notedExec true update) calls.rounds
  | .returns value span => do
    NotedM.silently (eng.tellStatement span)
    let v ← NotedM.silently (eng.returnValue calls value)
    NotedM.note (.returns inHeader v)
    return .returned v
  | .block body span => do
    NotedM.silently (eng.tellStatement span)
    NotedM.nested (notedBlock inHeader body)
  | .localVariable .. | .assign .. | .fieldAssign .. | .expression .. =>
    NotedM.silently (eng.exec calls s)

/-- Executes statements up to the first that returns, and keeps notes. -/
def notedBlock (inHeader : Bool) (ss : List Stmt) : NotedM F (Flow F) :=
  match ss with
  | [] => return .normal
  | s :: rest => do
    match ← notedExec inHeader s with
    | .returned v => return .returned v
    | .normal => notedBlock inHeader rest

end

/-- The notes of an execution of a body, the latest first. -/
def notes (body : List Stmt) (m : Machine F) : List (Note F) :=
  NotedM.taken (eng.notedBlock calls false body (m, []))

end Engine

/-! ## Without the notes -/

namespace NotedM

variable {α β : Type}

/-- Without its notes, a computation does what another one does. -/
def Erases (x : NotedM F α) (y : EvalM F α) : Prop := ∀ s, forget (x s) = y s.1

namespace Erases

theorem pure (a : α) : Erases (Pure.pure a : NotedM F α) (Pure.pure a) := fun _ => rfl

theorem silently (x : EvalM F α) : Erases (NotedM.silently x) x := by
  intro s
  unfold NotedM.silently
  cases x s.1 <;> rfl

theorem bind {x : NotedM F α} {y : EvalM F α} {f : α → NotedM F β} {g : α → EvalM F β}
    (hx : Erases x y) (hf : ∀ a, Erases (f a) (g a)) : Erases (x >>= f) (y >>= g) := by
  intro s
  show forget (EStateM.bind x f s) = EStateM.bind y g s.1
  unfold EStateM.bind
  rw [← hx s]
  cases x s with
  | ok a s' => exact hf a s'
  | error e s' => rfl

/-- A note changes nothing but the notes. -/
theorem note_bind {f : Unit → NotedM F α} {y : EvalM F α} (n : Note F) (hf : Erases (f ()) y) :
    Erases (note n >>= f) y :=
  fun s => hf (s.1, n :: s.2)

theorem nested {x : NotedM F α} {y : EvalM F α} (hx : Erases x y) :
    Erases (NotedM.nested x) (EvalM.nested y) := by
  intro s
  unfold NotedM.nested EvalM.nested
  rw [← hx ({ s.1 with scope := s.1.scope.push }, s.2)]
  cases x ({ s.1 with scope := s.1.scope.push }, s.2) <;> rfl

end Erases

end NotedM

namespace Engine

open NotedM

theorem notedRounds_erases {test : EvalM F Bool} {body : NotedM F (Flow F)}
    {body' : EvalM F (Flow F)} {update : NotedM F Unit} {update' : EvalM F Unit}
    (hbody : Erases body body') (hupdate : Erases update update') :
    ∀ n, Erases (notedRounds test body update n) (rounds test body' update' n)
  | 0 => .silently _
  | n + 1 => by
    refine .bind (.silently test) fun b => ?_
    cases b with
    | false => exact .pure _
    | true =>
      refine .bind hbody fun flow => ?_
      cases flow with
      | returned v => exact .pure _
      | normal => exact .bind hupdate fun _ => notedRounds_erases hbody hupdate n

variable [HostFunctions F] (eng : Engine F) (calls : Calls F)

mutual

theorem notedExec_erases : ∀ (inHeader : Bool) (s : Stmt),
    Erases (eng.notedExec calls inHeader s) (eng.exec calls s)
  | _, .localVariable _ _ _ _ | _, .assign _ _ _ _ | _, .fieldAssign _ _ _ _ _
  | _, .expression _ _ => by
    rw [notedExec]
    exact .note_bind _ (.silently _)
  | b, .ifElse test thenBranch none _ => by
    rw [notedExec, exec]
    refine .note_bind _ (.bind (.silently _) fun _ => .bind (.silently _) fun holds => ?_)
    cases holds with
    | false => exact .pure _
    | true => exact .nested (notedBlock_erases b thenBranch)
  | b, .ifElse test thenBranch (some elseBranch) _ => by
    rw [notedExec, exec]
    refine .note_bind _ (.bind (.silently _) fun _ => .bind (.silently _) fun holds => ?_)
    cases holds with
    | false => exact .nested (notedBlock_erases b elseBranch)
    | true => exact .nested (notedBlock_erases b thenBranch)
  | b, .whileLoop test body _ => by
    rw [notedExec, exec]
    exact .note_bind _ (.bind (.silently _) fun _ =>
      notedRounds_erases (.nested (notedBlock_erases b body)) (.pure ()) _)
  | b, .forLoop init test update body _ => by
    rw [notedExec, exec]
    refine .note_bind _ (.bind (.silently _) fun _ => .nested ?_)
    refine .bind (notedExec_erases true init) fun _ => ?_
    exact notedRounds_erases (.nested (notedBlock_erases b body))
      (.bind (notedExec_erases true update) fun _ => .pure ()) _
  | b, .returns value _ => by
    rw [notedExec, exec]
    exact .note_bind _ (.bind (.silently _) fun _ => .bind (.silently _) fun v =>
      .note_bind _ (.pure _))
  | b, .block body _ => by
    rw [notedExec, exec]
    exact .note_bind _ (.bind (.silently _) fun _ => .nested (notedBlock_erases b body))

/-- An execution that keeps notes is, apart from them, an execution. -/
theorem notedBlock_erases : ∀ (inHeader : Bool) (ss : List Stmt),
    Erases (eng.notedBlock calls inHeader ss) (eng.execBlock calls ss)
  | _, [] => by
    rw [notedBlock, execBlock]
    exact .pure _
  | b, s :: rest => by
    rw [notedBlock, execBlock]
    refine .bind (notedExec_erases b s) fun flow => ?_
    cases flow with
    | returned v => exact .pure _
    | normal => exact notedBlock_erases b rest

end

end Engine

/-! ## What is noted -/

/-- No `return` outside the headers of loops is noted. -/
def Note.NoneReturns (ns : List (Note F)) : Prop := ∀ v, Note.returns false v ∉ ns

namespace Note.NoneReturns

theorem nil : NoneReturns ([] : List (Note F)) := by
  intro v hv
  cases hv

theorem append {ns ns' : List (Note F)} (h : NoneReturns ns) (h' : NoneReturns ns') :
    NoneReturns (ns ++ ns') := by
  intro v hv
  rcases List.mem_append.mp hv with hv | hv
  · exact h v hv
  · exact h' v hv

theorem begins (s : Stmt) : NoneReturns [Note.begins (F := F) s] := by
  intro v hv
  cases List.mem_singleton.mp hv

theorem returns_inHeader (v : Option (Variable F)) : NoneReturns [Note.returns true v] := by
  intro w hw
  cases List.mem_singleton.mp hw

end Note.NoneReturns

namespace NotedM

open Note

variable {α β : Type}

/-- Notes no `return` outside the headers of loops. -/
def Quiet (x : NotedM F α) : Prop :=
  ∀ s, ∃ new, NoneReturns new ∧ taken (x s) = new ++ s.2

/--
The result of an execution that began with some notes: a `return` is noted if and only if that is
what the execution ends with, and it is the last thing noted.
-/
inductive Exited (inHeader : Bool) (before : List (Note F)) :
    EStateM.Result (Stop F) (Machine F × List (Note F)) (Flow F) → Prop
  | normal {new : List (Note F)} (m : Machine F) : NoneReturns new →
      Exited inHeader before (.ok .normal (m, new ++ before))
  | returned {new : List (Note F)} (v : Option (Variable F)) (m : Machine F) : NoneReturns new →
      Exited inHeader before (.ok (.returned v) (m, .returns inHeader v :: (new ++ before)))
  | error {new : List (Note F)} (e : Stop F) (m : Machine F) : NoneReturns new →
      Exited inHeader before (.error e (m, new ++ before))

/-- Wherever it begins, an execution notes a `return` exactly if it ends with it. -/
def Exits (inHeader : Bool) (x : NotedM F (Flow F)) : Prop := ∀ s, Exited inHeader s.2 (x s)

namespace Quiet

theorem pure (a : α) : Quiet (Pure.pure a : NotedM F α) := fun _ => ⟨[], .nil, rfl⟩

theorem silently (x : EvalM F α) : Quiet (NotedM.silently x) := by
  intro s
  refine ⟨[], .nil, ?_⟩
  unfold NotedM.silently
  cases x s.1 <;> rfl

theorem note_begins (s : Stmt) : Quiet (note (F := F) (.begins s)) :=
  fun _ => ⟨_, .begins s, rfl⟩

theorem bind {x : NotedM F α} {f : α → NotedM F β} (hx : Quiet x) (hf : ∀ a, Quiet (f a)) :
    Quiet (x >>= f) := by
  intro s
  obtain ⟨new, hnew, htaken⟩ := hx s
  show ∃ new, NoneReturns new ∧ taken (EStateM.bind x f s) = new ++ s.2
  unfold EStateM.bind
  cases hr : x s with
  | error e s' =>
    rw [hr] at htaken
    exact ⟨new, hnew, htaken⟩
  | ok a s' =>
    rw [hr] at htaken
    obtain ⟨new', hnew', htaken'⟩ := hf a s'
    refine ⟨new' ++ new, hnew'.append hnew, htaken'.trans ?_⟩
    rw [List.append_assoc, ← htaken]
    rfl

/-- What goes on quietly leaves as its continuation does. -/
theorem bind_exits {inHeader : Bool} {x : NotedM F α} {f : α → NotedM F (Flow F)} (hx : Quiet x)
    (hf : ∀ a, Exits inHeader (f a)) : Exits inHeader (x >>= f) := by
  intro s
  obtain ⟨new, hnew, htaken⟩ := hx s
  show Exited inHeader s.2 (EStateM.bind x f s)
  unfold EStateM.bind
  cases hr : x s with
  | error e s' =>
    obtain ⟨m, ns⟩ := s'
    rw [hr] at htaken
    obtain rfl : ns = _ := htaken
    exact .error e m hnew
  | ok a s' =>
    obtain ⟨m, ns⟩ := s'
    rw [hr] at htaken
    obtain rfl : ns = _ := htaken
    have h := hf a (m, new ++ s.2)
    show Exited inHeader s.2 (f a (m, new ++ s.2))
    generalize f a (m, new ++ s.2) = r at h
    cases h with
    | normal m' hnew' =>
      rw [← List.append_assoc]
      exact .normal m' (hnew'.append hnew)
    | returned v m' hnew' =>
      rw [← List.append_assoc]
      exact .returned v m' (hnew'.append hnew)
    | error e m' hnew' =>
      rw [← List.append_assoc]
      exact .error e m' (hnew'.append hnew)

end Quiet

namespace Exits

variable {inHeader : Bool}

theorem normal : Exits inHeader (Pure.pure .normal : NotedM F (Flow F)) :=
  fun s => .normal s.1 .nil

/-- A `return` is noted when it is done. -/
theorem note_returns (v : Option (Variable F)) :
    Exits inHeader (note (.returns inHeader v) >>= fun _ => Pure.pure (.returned v)) :=
  fun s => .returned v s.1 .nil

/-- An execution passes on what a part of it returns, and goes on where the part does. -/
theorem bind {x : NotedM F (Flow F)} {f : Flow F → NotedM F (Flow F)} (hx : Exits inHeader x)
    (hreturned : ∀ v, f (.returned v) = Pure.pure (.returned v))
    (hnormal : Exits inHeader (f .normal)) : Exits inHeader (x >>= f) := by
  intro s
  have h := hx s
  show Exited inHeader s.2 (EStateM.bind x f s)
  unfold EStateM.bind
  generalize x s = r at h
  cases h with
  | error e m hnew => exact .error e m hnew
  | returned v m hnew =>
    dsimp only
    rw [hreturned]
    exact .returned v m hnew
  | normal m hnew =>
    refine Quiet.bind_exits (x := fun s' => .ok () (m, _ ++ s'.2)) ?_ (fun _ => hnormal) s
    exact fun s' => ⟨_, hnew, rfl⟩

theorem nested {x : NotedM F (Flow F)} (hx : Exits inHeader x) :
    Exits inHeader (NotedM.nested x) := by
  intro s
  have h := hx ({ s.1 with scope := s.1.scope.push }, s.2)
  unfold NotedM.nested
  generalize x ({ s.1 with scope := s.1.scope.push }, s.2) = r at h
  cases h with
  | normal m hnew => exact .normal _ hnew
  | returned v m hnew => exact .returned v _ hnew
  | error e m hnew => exact .error e _ hnew

/-- What is done in a header is done quietly. -/
theorem quiet {x : NotedM F (Flow F)} (hx : Exits true x) : Quiet x := by
  intro s
  have h := hx s
  generalize x s = r at h
  cases h with
  | normal m hnew => exact ⟨_, hnew, rfl⟩
  | returned v m hnew => exact ⟨_, (NoneReturns.returns_inHeader v).append hnew, rfl⟩
  | error e m hnew => exact ⟨_, hnew, rfl⟩

end Exits

end NotedM

namespace Engine

open NotedM

theorem notedRounds_exits {inHeader : Bool} {test : EvalM F Bool} {body : NotedM F (Flow F)}
    {update : NotedM F Unit} (hbody : Exits inHeader body) (hupdate : Quiet update) :
    ∀ n, Exits inHeader (notedRounds test body update n)
  | 0 => fun s => .error .exhausted s.1 .nil
  | n + 1 => by
    refine Quiet.bind_exits (.silently test) fun b => ?_
    cases b with
    | false => exact .normal
    | true =>
      exact .bind hbody (fun _ => rfl)
        (hupdate.bind_exits fun _ => notedRounds_exits hbody hupdate n)

variable [HostFunctions F] (eng : Engine F) (calls : Calls F)

/-- Statements without a `return` in them do not return. -/
theorem exits_silently {s : Stmt} (hs : s.returnForms = []) {inHeader : Bool} :
    Exits inHeader (NotedM.silently (eng.exec calls s)) := by
  intro st
  unfold NotedM.silently
  cases hr : eng.exec calls s st.1 with
  | error e m => exact .error e m .nil
  | ok flow m =>
    cases flow with
    | normal => exact .normal m .nil
    | returned v =>
      have hv := exec_returnForms hr
      rw [hs] at hv
      cases hv

mutual

theorem notedExec_exits : ∀ (inHeader : Bool) (s : Stmt),
    Exits inHeader (eng.notedExec calls inHeader s)
  | _, .localVariable _ _ _ _ | _, .assign _ _ _ _ | _, .fieldAssign _ _ _ _ _
  | _, .expression _ _ => by
    rw [notedExec]
    exact (Quiet.note_begins _).bind_exits fun _ =>
      eng.exits_silently calls (by rw [Stmt.returnForms] <;> simp)
  | b, .ifElse test thenBranch none _ => by
    rw [notedExec]
    refine (Quiet.note_begins _).bind_exits fun _ => (Quiet.silently _).bind_exits fun _ =>
      (Quiet.silently _).bind_exits fun holds => ?_
    cases holds with
    | false => exact .normal
    | true => exact .nested (notedBlock_exits b thenBranch)
  | b, .ifElse test thenBranch (some elseBranch) _ => by
    rw [notedExec]
    refine (Quiet.note_begins _).bind_exits fun _ => (Quiet.silently _).bind_exits fun _ =>
      (Quiet.silently _).bind_exits fun holds => ?_
    cases holds with
    | false => exact .nested (notedBlock_exits b elseBranch)
    | true => exact .nested (notedBlock_exits b thenBranch)
  | b, .whileLoop test body _ => by
    rw [notedExec]
    exact (Quiet.note_begins _).bind_exits fun _ => (Quiet.silently _).bind_exits fun _ =>
      notedRounds_exits (.nested (notedBlock_exits b body)) (.pure ()) _
  | b, .forLoop init test update body _ => by
    rw [notedExec]
    refine (Quiet.note_begins _).bind_exits fun _ => (Quiet.silently _).bind_exits fun _ =>
      .nested ?_
    refine (notedExec_exits true init).quiet.bind_exits fun _ => ?_
    exact notedRounds_exits (.nested (notedBlock_exits b body))
      ((notedExec_exits true update).quiet.bind fun _ => .pure ()) _
  | b, .returns value _ => by
    rw [notedExec]
    exact (Quiet.note_begins _).bind_exits fun _ => (Quiet.silently _).bind_exits fun _ =>
      (Quiet.silently _).bind_exits fun v => .note_returns v
  | b, .block body _ => by
    rw [notedExec]
    exact (Quiet.note_begins _).bind_exits fun _ => (Quiet.silently _).bind_exits fun _ =>
      .nested (notedBlock_exits b body)

/-- At the end of a body a `return` is noted exactly if the body has returned, as the last thing. -/
theorem notedBlock_exits : ∀ (inHeader : Bool) (ss : List Stmt),
    Exits inHeader (eng.notedBlock calls inHeader ss)
  | _, [] => by
    rw [notedBlock]
    exact .normal
  | b, s :: rest => by
    rw [notedBlock]
    exact .bind (notedExec_exits b s) (fun _ => rfl) (notedBlock_exits b rest)

end

end Engine

/-! ## Bodies and invocations -/

section Invocations

variable [HostFunctions F] {eng : Engine F} {calls : Calls F} {body : List Stmt} {m : Machine F}

/-- A body of which a `return` is noted ends with it. -/
theorem Engine.execBlock_of_mem_notes {v : Option (Variable F)}
    (h : .returns false v ∈ eng.notes calls body m) :
    ∃ before m', eng.notes calls body m = .returns false v :: before ∧ Note.NoneReturns before ∧
      eng.execBlock calls body m = .ok (.returned v) m' := by
  have herases := eng.notedBlock_erases calls false body (m, [])
  have hexits := eng.notedBlock_exits calls false body (m, [])
  unfold notes at h ⊢
  generalize eng.notedBlock calls false body (m, []) = r at h herases hexits
  cases hexits with
  | normal m' hnew =>
    rw [List.append_nil] at h
    exact absurd h (hnew v)
  | error e m' hnew =>
    rw [List.append_nil] at h
    exact absurd h (hnew v)
  | returned w m' hnew =>
    rw [List.append_nil] at h ⊢
    rcases List.mem_cons.mp h with heq | hmem
    · cases heq
      exact ⟨_, m', rfl, hnew, herases.symm⟩
    · exact absurd hmem (hnew v)

variable {s : Selected F (RuntimeClass F)} {this : Value F} {args : List (Variable F)} {span : Span}
  {m₀ : Machine F}

/-- What a method does whose body returns: it declares the value as it promises. -/
theorem Engine.invoke_of_returned {superArguments : Option (List Expr)}
    (hbody : s.member.body = .declared body superArguments)
    (hparams : eng.bindParameters (s.bindings.complete s.signature) span s.signature.params args
      (eng.enterMethod s this span m₀) = .ok () m)
    {v : Option (Variable F)} {m' : Machine F}
    (hrun : eng.execBlock calls body m = .ok (.returned v) m') :
    (∃ r m'', eng.invoke calls s this args span m₀ = .ok r m'' ∧
      r.map Variable.value = s.signature.returnType.bind fun _ => v.map Variable.value) ∨
    ∃ ty ∈ s.signature.returnType, ∃ m₁ e m₂,
      eng.classOf (ty.substitute (s.bindings.complete s.signature)) span m₁ = .error e m₂ ∧
      eng.invoke calls s this args span m₀ = .error e (eng.popFrame m₂) := by
  let frame : Frame := ⟨s.signature.methodFrame s.owner, eng.location span⟩
  have hvalue : eng.methodValue calls s (s.bindings.complete s.signature) this args span
      (eng.pushFrame frame m₀) =
        .ok (v.map Variable.value) { m' with scope := (eng.pushFrame frame m₀).scope } := by
    unfold enterMethod at hparams
    unfold methodValue EvalM.withScope
    rw [hbody]
    simp only [bind, EStateM.bind, frame, hparams, hrun]
    rfl
  unfold invoke withFrame
  simp only [bind, EStateM.bind]
  rw [hvalue]
  dsimp only
  cases hty : s.signature.returnType with
  | none => exact .inl ⟨none, _, rfl, rfl⟩
  | some ty =>
    cases v with
    | none => exact .inl ⟨none, _, rfl, rfl⟩
    | some x =>
      dsimp only [Option.map_some]
      unfold EStateM.bind
      generalize hm₁ : ({ m' with scope := (eng.pushFrame frame m₀).scope } : Machine F) = m₁
      cases hc : eng.classOf (ty.substitute (s.bindings.complete s.signature)) span m₁ with
      | ok c m₂ => exact .inl ⟨some ⟨c, x.value⟩, _, rfl, rfl⟩
      | error e m₂ => exact .inr ⟨ty, rfl, m₁, e, m₂, hc, rfl⟩

/--
Once a `return` outside the headers of `for` loops is done, no statement of the body begins any more
and nothing else is returned. The body ends with what was returned, and the method whose body it is
gives it, if it promises a value and there is a class for it.
-/
theorem return_leaves {v : Option (Variable F)} (h : .returns false v ∈ eng.notes calls body m) :
    (∃ before m', eng.notes calls body m = .returns false v :: before ∧
      Note.NoneReturns before ∧ eng.execBlock calls body m = .ok (.returned v) m') ∧
    ∀ (s : Selected F (RuntimeClass F)) (this : Value F) (args : List (Variable F)) (span : Span)
      (m₀ : Machine F) (superArguments : Option (List Expr)),
      s.member.body = .declared body superArguments →
      eng.bindParameters (s.bindings.complete s.signature) span s.signature.params args
        (eng.enterMethod s this span m₀) = .ok () m →
      (∃ r m'', eng.invoke calls s this args span m₀ = .ok r m'' ∧
        r.map Variable.value = s.signature.returnType.bind fun _ => v.map Variable.value) ∨
      ∃ ty ∈ s.signature.returnType, ∃ m₁ e m₂,
        eng.classOf (ty.substitute (s.bindings.complete s.signature)) span m₁ = .error e m₂ ∧
        eng.invoke calls s this args span m₀ = .error e (eng.popFrame m₂) := by
  obtain ⟨before, m', hnotes, hbefore, hrun⟩ := Engine.execBlock_of_mem_notes h
  exact ⟨⟨before, m', hnotes, hbefore, hrun⟩, fun s this args span m₀ superArguments hbody hparams =>
    Engine.invoke_of_returned hbody hparams hrun⟩

end Invocations

/-- Whether a computation ended well. -/
def EvalM.isOk {α : Type} : EStateM.Result (Stop F) (Machine F) α → Bool
  | .ok _ _ => true
  | .error _ _ => false

/-- Whether a run of the program ends well and prints a text. -/
def Engine.prints (eng : Engine StandardFn) (text : String) : Bool :=
  match eng.run {} with
  | .ok _ m => m.output == text
  | .error _ _ => false

theorem Engine.prints_ok {eng : Engine StandardFn} {text : String} (h : eng.prints text = true) :
    ∃ m, eng.run {} = .ok () m ∧ m.output = text := by
  unfold prints at h
  split at h
  · next u m hrun => exact ⟨m, hrun, beq_iff_eq.mp h⟩
  · cases h

open Build in
/-- A method that returns from the body of a loop. -/
def inBodyMethod : MethodDecl :=
  staticMethod "inBody" (some "int") []
    [forLoop (block []) (boolean true) (block [])
       [ifElse (boolean true) [block [returns (some (int 1))]] none],
     returns (some (int 2))]

open Build in
/-- A method that returns in the header of a loop. -/
def inHeaderMethod : MethodDecl :=
  staticMethod "inHeader" (some "int") []
    [forLoop (returns (some (int 1))) (boolean false) (block []) [], returns (some (int 2))]

open Build in
/-- A program that prints what the two methods return. -/
def headerProgram : Program :=
  program
    [{ name := ident "Main",
       methods := [inBodyMethod, inHeaderMethod, mainMethod
         [expr (println (call (var "Integer") "toString" [call (var "Main") "inBody" []])),
          expr (println (call (var "Integer") "toString" [call (var "Main") "inHeader" []]))]] }]

/-- A call of the method that returns from the body of a loop. -/
def inBodyCall (c : RuntimeClass StandardFn) : Selected StandardFn (RuntimeClass StandardFn) :=
  ⟨c, .ofMethod "Main" inBodyMethod, ⟨"inBody", true, [], [], some .int⟩, []⟩

/-- Whether the latest note is the return of a number outside headers. -/
def Note.lastReturnsInt (n : Int64) : List (Note F) → Bool
  | .returns false (some ⟨_, .int k⟩) :: _ => k == n
  | _ => false

theorem Note.lastReturnsInt_mem {n : Int64} {ns : List (Note F)} (h : lastReturnsInt n ns = true) :
    ∃ v, .returns false (some v) ∈ ns ∧ v.value = .int n := by
  unfold lastReturnsInt at h
  split at h
  · exact ⟨_, List.mem_cons_self .., congrArg Value.int (beq_iff_eq.mp h)⟩
  · cases h

/-- Whether that call returns 1, by its notes, and ends well. -/
def Engine.callsInBody (eng : Engine StandardFn) : Bool :=
  match eng.staticView "Main" {} {} with
  | .ok c m =>
    Note.lastReturnsInt 1 (eng.notes (.atDepth eng 8) inBodyMethod.body
      (eng.enterMethod (inBodyCall c) .null {} m)) &&
    EvalM.isOk (eng.invoke (.atDepth eng 8) (inBodyCall c) .null [] {} m)
  | .error _ _ => false

theorem return_leaves_inBody : ∃ p' eng c m v r m',
    headerProgram.analyse NativeRegistry.standard = .ok p' ∧
      Engine.new p' NativeRegistry.standard = .ok eng ∧
      .returns false (some v) ∈ eng.notes (.atDepth eng 8) inBodyMethod.body
        (eng.enterMethod (inBodyCall c) .null {} m) ∧
      eng.invoke (.atDepth eng 8) (inBodyCall c) .null [] {} m = .ok r m' ∧
      r.map Variable.value = some (.int 1) := by
  have hlaunches : headerProgram.launches (fun _ => false) Engine.callsInBody = true := by
    decide +kernel
  obtain ⟨p', eng, hanalyse, hnew, hcalls⟩ := Program.passes_of_launches hlaunches
  unfold Engine.callsInBody at hcalls
  split at hcalls
  · next c m _ =>
    obtain ⟨hnoted, hok⟩ := Bool.and_eq_true_iff.mp hcalls
    obtain ⟨v, hmem, hv⟩ := Note.lastReturnsInt_mem hnoted
    have hleaves := (return_leaves hmem).2 (inBodyCall c) .null [] {} m none rfl rfl
    rcases hleaves with ⟨r, m', hinvoke, hr⟩ | ⟨ty, -, m₁, e, m₂, -, hinvoke⟩
    · refine ⟨p', eng, c, m, v, r, m', hanalyse, hnew, hmem, hinvoke, ?_⟩
      rw [hr, ← hv]
      rfl
    · rw [hinvoke] at hok
      cases hok
  · cases hcalls

/-- Whether a number was returned in a header, and another one after it. -/
def Note.returnsTwice (first second : Int64) : List (Note F) → Bool
  | .returns false (some ⟨_, .int k⟩) :: .begins _ :: .returns true (some ⟨_, .int n⟩) :: _ =>
    n == first && k == second
  | _ => false

theorem Note.returnsTwice_eq {first second : Int64} {ns : List (Note F)}
    (h : returnsTwice first second ns = true) : ∃ v w s before,
      ns = .returns false (some w) :: .begins s :: .returns true (some v) :: before ∧
        v.value = .int first ∧ w.value = .int second := by
  unfold returnsTwice at h
  split at h
  · obtain ⟨hfirst, hsecond⟩ := Bool.and_eq_true_iff.mp h
    exact ⟨_, _, _, _, rfl, congrArg Value.int (beq_iff_eq.mp hfirst),
      congrArg Value.int (beq_iff_eq.mp hsecond)⟩
  · cases h

/--
After the `return` in the header of its loop the method goes on, begins another statement, and
returns something else; and the program prints that.
-/
theorem return_in_header_goes_on : ∃ p' eng v w s before m m',
    headerProgram.analyse NativeRegistry.standard = .ok p' ∧
      Engine.new p' NativeRegistry.standard = .ok eng ∧
      eng.notes (.atDepth eng 8) inHeaderMethod.body {} =
        .returns false (some w) :: .begins s :: .returns true (some v) :: before ∧
      v.value = .int 1 ∧ w.value = .int 2 ∧
      eng.execBlock (.atDepth eng 8) inHeaderMethod.body {} = .ok (.returned (some w)) m ∧
      eng.run {} = .ok () m' ∧ m'.output = "1\n2\n" := by
  have hlaunches : headerProgram.launches (fun _ => false) (fun eng =>
      Note.returnsTwice 1 2 (eng.notes (.atDepth eng 8) inHeaderMethod.body {}) &&
        eng.prints "1\n2\n") = true := by
    decide +kernel
  obtain ⟨p', eng, hanalyse, hnew, htest⟩ := Program.passes_of_launches hlaunches
  obtain ⟨htwice, hprints⟩ := Bool.and_eq_true_iff.mp htest
  obtain ⟨v, w, s, before, hnotes, hv, hw⟩ := Note.returnsTwice_eq htwice
  obtain ⟨m', hrun, houtput⟩ := Engine.prints_ok hprints
  have hmem : Note.returns false (some w) ∈ eng.notes (.atDepth eng 8) inHeaderMethod.body {} := by
    rw [hnotes]
    exact List.mem_cons_self ..
  obtain ⟨_, m, -, -, hbody⟩ := Engine.execBlock_of_mem_notes hmem
  exact ⟨p', eng, v, w, s, before, m, m', hanalyse, hnew, hnotes, hv, hw, hbody, hrun, houtput⟩

end Middleweight
