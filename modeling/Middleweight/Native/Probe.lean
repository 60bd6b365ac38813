import Middleweight.Native.Standard

/-!
# Probes

Functions with which a host looks at the calls it gets: what the receiver is, what the arguments are,
where the call stands, and what comes of constructing and allocating from inside a call. They stand
beside the functions of the standard library.
-/

namespace Middleweight

/-- The functions of the standard library, and functions that look at their call. -/
inductive ProbeFn where
  | standard (f : StandardFn)
  | nothing | answer | this | arg (i : Nat)
  | intArg | floatArg | boolArg | strArg | thisStr
  | instanceClass | className | argTypes | callSite | fail
  | initCounter | bump | newList | newSelf | allocSelf | writeArg
deriving DecidableEq, Inhabited

namespace ProbeFn

open HostProgram

variable {F : Type}

/-- The probe of a name. -/
def ofName? : String → Option ProbeFn
  | "nothing" => some nothing
  | "answer" => some answer
  | "this" => some this
  | "arg0" => some (arg 0)
  | "arg5" => some (arg 5)
  | "int_arg" => some intArg
  | "float_arg" => some floatArg
  | "bool_arg" => some boolArg
  | "str_arg" => some strArg
  | "this_str" => some thisStr
  | "instance_class" => some instanceClass
  | "class_name" => some className
  | "arg_types" => some argTypes
  | "call_site" => some callSite
  | "fail" => some fail
  | "init_counter" => some initCounter
  | "bump" => some bump
  | "new_list" => some newList
  | "new_self" => some newSelf
  | "alloc_self" => some allocSelf
  | "write_arg" => some writeArg
  | _ => none

/-- What the functions do. -/
def perform : ProbeFn → HostCall F → HostProgram F (Value F)
  | standard f, call => f.perform call
  | nothing, _ => done .null
  | answer, _ => done (.int 42)
  | this, call => done call.this
  | arg i, call => do return (← call.arg i).value
  | intArg, call => do return .int (← call.intArg 0)
  | floatArg, call => do return .float (← call.floatArg 0)
  | boolArg, call => do return .bool (← call.boolArg 0)
  | strArg, call => do return .str (← call.strArg 0)
  | thisStr, call => do return .str (← call.thisStr)
  | instanceClass, call => do return .str (← call.receiver).cls.text
  | className, call => done (.str call.cls.text)
  | argTypes, call =>
    done (.str (String.intercalate ";" (call.args.map fun a => a.cls.text)))
  | callSite, call =>
    depth fun n => done (.str (call.span.text ++ " depth " ++ toString n))
  | fail, _ => failWith "native failure"
  | initCounter, call => do
    call.initState (.count 0)
    return .null
  | bump, call => do
    let (o, n) ← call.count
    setState o (.count (n + 1)) (done (.int (Int64.ofInt (n + 1))))
  | newList, _ =>
    classOf (.cls "java.util.List" [.string]) fun c =>
      construct c [] fun o => done (.object o)
  | newSelf, call => construct call.cls call.args fun o => done (.object o)
  | allocSelf, call => allocate call.cls fun o => done (.object o)
  | writeArg, call => do
    let v ← call.arg 0
    write ("<" ++ v.value.text ++ ">") (done .null)

end ProbeFn

instance : HostFunctions ProbeFn := ⟨ProbeFn.perform⟩

/-- The standard library, its functions named among the probes. -/
def NativeRegistry.probed : NativeRegistry ProbeFn :=
  NativeRegistry.ofClasses (NativeClass.standard.map (NativeClass.map ProbeFn.standard))

end Middleweight
