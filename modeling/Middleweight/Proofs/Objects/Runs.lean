import Middleweight.Proofs.Objects.Members

/-!
# Runs of monomorphic programs

A run of a checked program calls the method with which the program starts, and calls at every depth
are typed. So the run of a monomorphic program over a regular table ends well, or it stops where no
member fits, at `null`, or at an operation that its operands do not allow; it never comes upon an
unknown name or an error of types.

None of the conditions can be left out. Where one fails, a program may be accepted that reads a
field which its object does not have, or a variable which is not there.

* `Engine.gives_runWithin` : runs
* `monomorphic_runs_safely` : runs of analysed programs
-/

namespace Middleweight

open NativeRegistry (standard)

/-- A run of a well-typed program stops only where it may. -/
theorem Engine.gives_runWithin {p : Program} {eng : Engine StandardFn} (h : p.WellTyped eng.table)
    (hentry : eng.entry = entryOf p) (n : Nat) {κ : Context StandardFn} {W : World StandardFn}
    {L : Locals} : eng.Gives κ W L (eng.runWithin n) fun _ _ => True := by
  unfold runWithin
  refine Yields.withFrame ?_ _
  rw [hentry]
  cases hname : entryOf p with
  | none => exact Yields.raise (.noSuchMember _) _
  | some name =>
    obtain ⟨d, hfind, rfl⟩ := Option.map_eq_some_iff.mp hname
    have hd := List.mem_of_find?_eq_some hfind
    obtain ⟨cls, hcls, -⟩ := h.get?_of_declared hd
    have hresolve := ImportTable.resolve?_declared (ClassTable.imports_of_build h.build) hd
    have hcall : eng.Gives κ W L (eng.callStaticWithin n d.name.name "main" [] {})
        fun _ _ => True := by
      unfold callStaticWithin
      rw [hresolve]
      refine (gives_staticView h hcls {}).bind fun V view _ hview => ?_
      exact ((Calls.typed_atDepth h n).dispatch "main" {} (.shown ⟨_, hview⟩ rfl) (.static view)
        .nil).mono fun _ _ _ _ => trivial
    refine hcall.bind fun V _ _ _ => ?_
    unfold flush
    split
    · exact Yields.invalid _ _
    · exact Yields.pure ⟨rfl, trivial⟩

/--
A monomorphic program that analysis accepts has an engine. If the table of the engine is regular,
then its runs, whatever is observed and wherever output goes, end neither at an undefined variable
nor in an error of types.
-/
theorem monomorphic_runs_safely {p p' : Program} (hp : p.IsMonomorphic)
    (h : p.analyse standard = .ok p') : ∃ eng, Engine.new p' standard = .ok eng ∧
      (eng.table.Regular → ∀ observed sink n e m,
        { eng with observed, sink : Engine StandardFn }.runWithin n {} = .error (.error e) m →
        (∀ name, e.fault ≠ .undefinedVariable name) ∧ ∀ err, e.fault ≠ .type err) := by
  have hfindings := Program.analyse_ok_iff.mp h
  -- The checks that count are those of analysing the program once more, with the engine's table.
  have hagain := Program.analyseFindings_analysed NativeRegistry.standard_wellNamed
    hp.plainGenerics hfindings
  obtain ⟨t, -, hbuild, -, -, -, -, hcheck⟩ := Program.analyseFindings_ok hagain
  refine ⟨{ table := t, source := p'.source, entry := Engine.entryOf p' }, ?_, ?_⟩
  · rw [Engine.new, hbuild]
  · intro hregular observed sink n e m hrun
    let eng : Engine StandardFn := ⟨t, p'.source, Engine.entryOf p', observed, sink, callBudget⟩
    have htyped : p'.WellTyped eng.table := ⟨hbuild, hp.analysed hfindings, hregular, hcheck⟩
    have hends := Engine.gives_runWithin htyped rfl n {} .fresh
    rw [hrun] at hends
    cases hends with
    | stop he =>
      have he : e.fault.Admitted := he
      constructor
      · intro name hname
        rw [hname] at he
        cases he
      · intro err herr
        rw [herr] at he
        cases he

open Build in
/-- Overriding methods on the items of a list, a chain of constructors, and a field of `null`. -/
def petsProgram : Program :=
  program
    [{ name := ident "Animal",
       fields := [field "String" "name"],
       constructors := [constructor [param "String" "name"]
         [fieldAssign this "name" (var "name")]],
       methods :=
         [method "self" (some "Animal") [] [returns (some this)],
          method "sound" (some "String") [] [returns (some (string "is silent"))],
          method "speak" none []
            [expr (println (binary (binary (var "name") .add (string " ")) .add
              (call this "sound" [])))]] },
     { name := ident "Dog", base := some (ty "Animal"),
       fields := [field "int" "age"],
       constructors := [{ constructor [param "String" "name"] [assign "age" (int 1)] with
         superArguments := some [var "name"] }],
       methods :=
         [method "self" (some "Dog") [] [returns (some this)],
          method "sound" (some "String") [] [returns (some (string "barks"))]] },
     { name := ident "Main",
       methods := [mainMethod
         [localVariable "List<Animal>" "pets" (some (new "List<Animal>" [])),
          expr (call (var "pets") "add" [new "Animal" [string "Tom"]]),
          expr (call (var "pets") "add" [new "Dog" [string "Rex"]]),
          forLoop (localVariable "int" "i" (some (int 0)))
            (binary (var "i") .lt (call (var "pets") "size" []))
            (expr (postIncrement (var "i")))
            [expr (call (call (call (var "pets") "get" [var "i"]) "self" []) "speak" [])],
          localVariable "Dog" "none" none,
          localVariable "int" "age" (some (fieldOf (var "none") "age"))]] }]
    [importPath "java.util.List"]

theorem monomorphic_runs_safely_pets : ∃ p' eng e m, petsProgram.IsMonomorphic ∧
    petsProgram.analyse standard = .ok p' ∧ Engine.new p' standard = .ok eng ∧
    eng.table.Regular ∧ eng.run {} = .error (.error e) m ∧
    m.output = "Tom is silent\nRex barks\n" ∧
    (∀ name, e.fault ≠ .undefinedVariable name) ∧ ∀ err, e.fault ≠ .type err := by
  have hp : petsProgram.IsMonomorphic := by decide +kernel
  have hlaunches : petsProgram.launches (fun _ => false) (fun eng =>
      decide eng.table.Regular && match eng.run {} with
      | .error (.error _) m => m.output == "Tom is silent\nRex barks\n"
      | _ => false) = true := by
    decide +kernel
  obtain ⟨p', hanalyse, hnew⟩ := Program.launches_iff.mp hlaunches
  obtain ⟨eng, hnew, hpasses⟩ := hnew.resolve_left (by simp)
  obtain ⟨hregular, hpasses⟩ := Bool.and_eq_true_iff.mp hpasses
  split at hpasses
  · next e m hrun =>
    obtain ⟨eng', hnew', hsafe⟩ := monomorphic_runs_safely hp hanalyse
    cases hnew.symm.trans hnew'
    exact ⟨p', eng, e, m, hp, hanalyse, hnew, of_decide_eq_true hregular, hrun,
      beq_iff_eq.mp hpasses,
      hsafe (of_decide_eq_true hregular) eng.observed eng.sink eng.budget e m hrun⟩
  · cases hpasses

/-! ## The conditions -/

open Build in
/-- A program with classes of animals and of dogs, of which the latter have an age. -/
def animalsProgram (classes : List ClassDecl) (body : List Stmt) : Program :=
  program
    ([{ name := ident "Animal" },
      { name := ident "Dog", base := some (ty "Animal"), fields := [field "int" "age"] }] ++
      classes ++ [{ name := ident "Main", methods := [mainMethod body] }])
    [importPath "java.util.List"]

open Build in
/-- Reads the age of what is taken for a dog. -/
def readAge (e : Expr) : Stmt := localVariable "int" "age" (some (fieldOf e "age"))

open Build in
/-- A method without parameters that returns a new object. -/
def makes (name type made : String) : MethodDecl :=
  method name (some type) [] [returns (some (new made []))]

open Build in
/-- Accepted programs that are not monomorphic, or whose tables are not regular. -/
def unguardedPrograms : List Program :=
  [ -- An animal is cast to a dog.
    animalsProgram []
      [localVariable "Animal" "animal" (some (new "Animal" [])),
       readAge (group (cast "Dog" (var "animal")))],
    -- A box of dogs passes as a box of animals.
    animalsProgram
      [{ name := ident "Box", generics := [ident "T"], fields := [field "T" "item"] }]
      [localVariable "Box<Dog>" "dogs" (some (new "Box<Dog>" [])),
       localVariable "Box<Animal>" "animals" (some (var "dogs")),
       fieldAssign (var "animals") "item" (new "Animal" []),
       readAge (fieldOf (var "dogs") "item")],
    -- An animal passes as any parameter of a method, and so as a dog where dogs are passed to it.
    animalsProgram
      [{ name := ident "Zoo",
         methods := [{ staticMethod "swap" (some "T") [param "T" "x"]
             [returns (some (new "Animal" []))] with generics := [ident "T"] }] }]
      [readAge (call (var "Zoo") "swap" [new "Dog" []])],
    -- A class without parameters that extends a list of animals passes as a list of dogs.
    animalsProgram
      [{ name := ident "Kennel", base := some (ty "List<Animal>") }]
      [localVariable "Kennel" "kennel" (some (new "Kennel" [])),
       expr (call (var "kennel") "add" [new "Animal" []]),
       localVariable "List<Dog>" "dogs" (some (var "kennel")),
       readAge (call (var "dogs") "get" [int 0])],
    -- What passes as a box does not pass as its primitive, so another method is found for it.
    animalsProgram
      [{ name := ident "Size", base := some (ty "Integer") },
       { name := ident "Shop",
         methods := [method "size" (some "Integer") [] [returns (some (int 1))]] },
       { name := ident "Tailor", base := some (ty "Shop"),
         methods := [makes "size" "Size" "Size"] },
       { name := ident "Pound",
         methods := [{ makes "find" "Animal" "Animal" with parameters := [param "Object" "o"] }] },
       { name := ident "Shelter", base := some (ty "Pound"),
         methods := [{ makes "find" "Dog" "Dog" with parameters := [param "int" "n"] }] }]
      [localVariable "Shop" "shop" (some (new "Tailor" [])),
       localVariable "Shelter" "shelter" (some (new "Shelter" [])),
       readAge (call (var "shelter") "find" [call (var "shop") "size" []])],
    -- A field is declared again for animals.
    animalsProgram
      [{ name := ident "House", fields := [field "Dog" "pet"] },
       { name := ident "Flat", base := some (ty "House"), fields := [field "Animal" "pet"] }]
      [localVariable "Flat" "flat" (some (new "Flat" [])),
       fieldAssign (var "flat") "pet" (new "Animal" []),
       localVariable "House" "house" (some (var "flat")),
       readAge (fieldOf (var "house") "pet")],
    -- A method in the place of one that returns a dog returns an animal.
    animalsProgram
      [{ name := ident "House", methods := [makes "pet" "Dog" "Dog"] },
       { name := ident "Flat", base := some (ty "House"),
         methods := [makes "pet" "Animal" "Animal"] }]
      [localVariable "House" "house" (some (new "Flat" [])),
       readAge (call (var "house") "pet" [])],
    -- A class is named like the type of the null reference, which passes as every class.
    animalsProgram
      [{ name := ident Ty.nullName }]
      [localVariable Ty.nullName "nothing" (some (new Ty.nullName [])),
       localVariable "Dog" "dog" (some (var "nothing")),
       readAge (var "dog")],
    -- A class is named `this`, and then a local.
    animalsProgram
      [{ name := ident "this", methods := [staticMethod "bark" none [] []] }]
      [expr (call this "bark" [])],
    animalsProgram []
      [localVariable "Dog" "this" (some (new "Dog" [])), readAge this],
    -- A loop declares a local where it goes on, which is after its first round.
    animalsProgram []
      [forLoop (localVariable "Dog" "first" none) (boolean true) (localVariable "Dog" "next" none)
        [readAge (var "next")]],
    -- A field hides the class that an inherited body names.
    animalsProgram
      [{ name := ident "House",
         methods := [method "greet" none [] [expr (println (string "Hello"))]] },
       { name := ident "Flat", base := some (ty "House"), fields := [field "Dog" "System"] }]
      [localVariable "Flat" "flat" (some (new "Flat" [])),
       fieldAssign (var "flat") "System" (new "Dog" []),
       expr (call (var "flat") "greet" [])] ]

/-- Where a condition fails, an accepted program may end at an undefined variable. -/
theorem unguarded_undefined : unguardedPrograms.Forall fun p => ∃ p' eng e m name,
    p.analyse standard = .ok p' ∧ Engine.new p' standard = .ok eng ∧
    eng.run {} = .error (.error e) m ∧ e.fault = .undefinedVariable name := by
  have hlaunches : ∀ p ∈ unguardedPrograms, p.launches (fun _ => false) (fun eng =>
      match eng.run {} with
      | .error (.error ⟨.undefinedVariable _, _, _⟩) _ => true
      | _ => false) = true := by
    decide +kernel
  refine List.forall_iff_forall_mem.mpr fun p hp => ?_
  obtain ⟨p', hanalyse, hnew⟩ := Program.launches_iff.mp (hlaunches p hp)
  obtain ⟨eng, hnew, hpasses⟩ := hnew.resolve_left (by simp)
  split at hpasses
  · next name location stack m hrun => exact ⟨p', eng, _, m, name, hanalyse, hnew, hrun, rfl⟩
  · cases hpasses

end Middleweight
