import Middleweight.Proofs.Json.Abridged
import Middleweight.Syntax.Encode

/-!
# Forms of programs in JSON

`Program.Written` says in which forms a program may be handed over: as its encoding, less any parts,
at any depth, that have a default and hold it. The parts of each node stand in the order of the
encoding; a part is named `always` where it has no default.

* `Program.written_encode` : the encoding is a form, with nothing left out
-/

namespace Middleweight

open Json (Part IsRecord IsNode IsArray IsOption Abridged string array object)

/-! ## Forms of programs -/

/-- A span stands at its default where it stands nowhere. -/
def Span.part (s : Span) : Part := .defaulting "span" (s = {}) (· = s.encode)

@[simp] theorem Span.name_part (s : Span) : s.part.name = "span" := rfl

/-- An identifier has a name, and a span that may be left out. -/
def Identifier.parts (i : Identifier) : List Part :=
  [.always "name" (· = string i.name), i.span.part]

/-- The forms of an identifier. -/
def Identifier.Written (i : Identifier) : Json → Prop := IsRecord i.parts

mutual

/-- The forms of a written type. -/
def TypeExpr.Written : TypeExpr → Json → Prop
  | ⟨name, generics, span⟩ =>
    IsRecord [.always "name" (· = string name),
      .defaulting "generics" (generics = []) (IsArray (TypeExpr.AllWritten generics)), span.part]

def TypeExpr.AllWritten : List TypeExpr → List Json → Prop
  | [], js => js = []
  | t :: rest, js => ∃ j js', js = j :: js' ∧ t.Written j ∧ TypeExpr.AllWritten rest js'

end

mutual

/-- The forms of an expression. -/
def Expr.Written : Expr → Json → Prop
  | .literal value span => IsNode "literal" [.always "value" (· = value.encode), span.part]
  | .var name => IsNode "variable" name.parts
  | .binary lhs op rhs span =>
    IsNode "binary" [.always "lhs" lhs.Written, .always "operator" (· = string op.symbol),
      .always "rhs" rhs.Written, span.part]
  | .unary op operand span =>
    IsNode "unary" [.always "operator" (· = string op.symbol), .always "operand" operand.Written,
      span.part]
  | .step op before target span =>
    IsNode "increment" [.always "operator" (· = string op.symbol),
      .always "prefix" (· = .bool before), .always "target" target.Written, span.part]
  | .ternary condition thenValue elseValue span =>
    IsNode "ternary" [.always "condition" condition.Written,
      .always "then_value" thenValue.Written, .always "else_value" elseValue.Written, span.part]
  | .new ty arguments span =>
    IsNode "new" [.always "ty" ty.Written,
      .defaulting "arguments" (arguments = []) (IsArray (Expr.AllWritten arguments)), span.part]
  | .field receiver name span =>
    IsNode "field_access" [.always "receiver" receiver.Written, .always "field" name.Written,
      span.part]
  | .call receiver method arguments span =>
    IsNode "method_call" [.always "receiver" receiver.Written, .always "method" method.Written,
      .defaulting "arguments" (arguments = []) (IsArray (Expr.AllWritten arguments)), span.part]
  | .cast ty expression span =>
    IsNode "cast" [.always "ty" ty.Written, .always "expression" expression.Written, span.part]
  | .instanceOf expression ty span =>
    IsNode "instance_of" [.always "expression" expression.Written, .always "ty" ty.Written,
      span.part]
  | .group expression span =>
    IsNode "group" [.always "expression" expression.Written, span.part]

def Expr.AllWritten : List Expr → List Json → Prop
  | [], js => js = []
  | e :: rest, js => ∃ j js', js = j :: js' ∧ e.Written j ∧ Expr.AllWritten rest js'

end

mutual

/-- The forms of a statement. -/
def Stmt.Written : Stmt → Json → Prop
  | .localVariable ty name value span =>
    IsNode "local_variable" [.always "ty" ty.Written, .always "name" name.Written,
      .defaulting "value" (value = none) (IsOption Expr.Written value), span.part]
  | .assign target op value span =>
    IsNode "assign" [.always "target" target.Written, .always "operator" (· = string op.symbol),
      .always "value" value.Written, span.part]
  | .fieldAssign receiver field op value span =>
    IsNode "field_assign" [.always "receiver" receiver.Written, .always "field" field.Written,
      .always "operator" (· = string op.symbol), .always "value" value.Written, span.part]
  | .expression e span => IsNode "expression" [.always "expression" e.Written, span.part]
  | .ifElse condition thenBranch none span =>
    IsNode "if" [.always "condition" condition.Written,
      .always "then_branch" (IsArray (Stmt.AllWritten thenBranch)),
      .defaulting "else_branch" True (· = .null), span.part]
  | .ifElse condition thenBranch (some elseBranch) span =>
    IsNode "if" [.always "condition" condition.Written,
      .always "then_branch" (IsArray (Stmt.AllWritten thenBranch)),
      .always "else_branch" (IsArray (Stmt.AllWritten elseBranch)), span.part]
  | .whileLoop condition body span =>
    IsNode "while" [.always "condition" condition.Written,
      .always "body" (IsArray (Stmt.AllWritten body)), span.part]
  | .forLoop init condition update body span =>
    IsNode "for" [.always "init" init.Written, .always "condition" condition.Written,
      .always "update" update.Written, .always "body" (IsArray (Stmt.AllWritten body)), span.part]
  | .returns value span =>
    IsNode "return"
      [.defaulting "value" (value = none) (IsOption Expr.Written value), span.part]
  | .block statements span =>
    IsNode "block" [.always "statements" (IsArray (Stmt.AllWritten statements)), span.part]

def Stmt.AllWritten : List Stmt → List Json → Prop
  | [], js => js = []
  | s :: rest, js => ∃ j js', js = j :: js' ∧ s.Written j ∧ Stmt.AllWritten rest js'

end

/-- A list that may be left out where it is empty. -/
def Json.Part.list {α : Type} (name : String) (Written : α → Json → Prop) (as : List α) : Part :=
  .defaulting name (as = []) (IsArray (List.Forall₂ Written as))

/-- The forms of a parameter. -/
def Parameter.Written (p : Parameter) : Json → Prop :=
  IsRecord [.always "ty" p.ty.Written, .always "name" p.name.Written]

/-- The forms of a field. -/
def FieldDecl.Written (f : FieldDecl) : Json → Prop :=
  IsRecord [.always "ty" f.ty.Written, .always "name" f.name.Written, f.span.part]

/-- The forms of a constructor. -/
def ConstructorDecl.Written (c : ConstructorDecl) : Json → Prop :=
  IsRecord [.list "parameters" Parameter.Written c.parameters,
    .defaulting "super_arguments" (c.superArguments = none)
      (IsOption (fun es => IsArray (Expr.AllWritten es)) c.superArguments),
    .defaulting "body" (c.body = []) (IsArray (Stmt.AllWritten c.body)), c.span.part]

/-- The forms of a method. -/
def MethodDecl.Written (m : MethodDecl) : Json → Prop :=
  IsRecord [.always "name" m.name.Written,
    .defaulting "is_static" (m.isStatic = false) (· = .bool m.isStatic),
    .list "generics" Identifier.Written m.generics,
    .defaulting "return_type" (m.returnType = none) (IsOption TypeExpr.Written m.returnType),
    .list "parameters" Parameter.Written m.parameters,
    .defaulting "body" (m.body = []) (IsArray (Stmt.AllWritten m.body)), m.span.part]

/-- The forms of a class. -/
def ClassDecl.Written (c : ClassDecl) : Json → Prop :=
  IsRecord [.always "name" c.name.Written, .list "generics" Identifier.Written c.generics,
    .defaulting "base" (c.base = none) (IsOption TypeExpr.Written c.base),
    .list "fields" FieldDecl.Written c.fields,
    .list "constructors" ConstructorDecl.Written c.constructors,
    .list "methods" MethodDecl.Written c.methods, c.span.part]

/-- The forms of an import. -/
def Import.Written (i : Import) : Json → Prop :=
  IsRecord [.always "path" (IsArray (List.Forall₂ Identifier.Written i.path)),
    .defaulting "wildcard" (i.wildcard = false) (· = .bool i.wildcard), i.span.part]

/-- The forms of a program. -/
def Program.Written (p : Program) : Json → Prop :=
  IsRecord [.always "source" (· = string p.source), .list "imports" Import.Written p.imports,
    .list "classes" ClassDecl.Written p.classes]

/-! ## The encoding -/

theorem Identifier.abridged_members (i : Identifier) : Abridged i.parts i.members :=
  .keep rfl (.keep rfl .nil)

theorem Identifier.written_encode (i : Identifier) : i.Written i.encode :=
  ⟨_, rfl, i.abridged_members⟩

mutual

theorem TypeExpr.written_encode : ∀ t : TypeExpr, t.Written t.encode
  | ⟨name, generics, span⟩ => by
    rw [TypeExpr.Written, TypeExpr.encode]
    exact ⟨_, rfl, .keep rfl (.keep ⟨_, rfl, TypeExpr.allWritten_encodeAll generics⟩ (.keep rfl .nil))⟩

theorem TypeExpr.allWritten_encodeAll : ∀ ts : List TypeExpr,
    TypeExpr.AllWritten ts (TypeExpr.encodeAll ts)
  | [] => by rw [TypeExpr.AllWritten, TypeExpr.encodeAll]
  | t :: rest => by
    rw [TypeExpr.AllWritten, TypeExpr.encodeAll]
    exact ⟨_, _, rfl, t.written_encode, TypeExpr.allWritten_encodeAll rest⟩

end

mutual

theorem Expr.written_encode : ∀ e : Expr, e.Written e.encode
  | .literal value span => by
    rw [Expr.Written, Expr.encode]
    exact ⟨_, rfl, .keep rfl (.keep rfl .nil)⟩
  | .var name => by
    rw [Expr.Written, Expr.encode]
    exact ⟨_, rfl, name.abridged_members⟩
  | .binary lhs op rhs span => by
    rw [Expr.Written, Expr.encode]
    exact ⟨_, rfl, .keep lhs.written_encode (.keep rfl (.keep rhs.written_encode (.keep rfl .nil)))⟩
  | .unary op operand span => by
    rw [Expr.Written, Expr.encode]
    exact ⟨_, rfl, .keep rfl (.keep operand.written_encode (.keep rfl .nil))⟩
  | .step op before target span => by
    rw [Expr.Written, Expr.encode]
    exact ⟨_, rfl, .keep rfl (.keep rfl (.keep target.written_encode (.keep rfl .nil)))⟩
  | .ternary condition thenValue elseValue span => by
    rw [Expr.Written, Expr.encode]
    exact ⟨_, rfl, .keep condition.written_encode (.keep thenValue.written_encode
      (.keep elseValue.written_encode (.keep rfl .nil)))⟩
  | .new ty arguments span => by
    rw [Expr.Written, Expr.encode]
    exact ⟨_, rfl, .keep ty.written_encode
      (.keep ⟨_, rfl, Expr.allWritten_encodeAll arguments⟩ (.keep rfl .nil))⟩
  | .field receiver name span => by
    rw [Expr.Written, Expr.encode]
    exact ⟨_, rfl, .keep receiver.written_encode (.keep name.written_encode (.keep rfl .nil))⟩
  | .call receiver method arguments span => by
    rw [Expr.Written, Expr.encode]
    exact ⟨_, rfl, .keep receiver.written_encode (.keep method.written_encode
      (.keep ⟨_, rfl, Expr.allWritten_encodeAll arguments⟩ (.keep rfl .nil)))⟩
  | .cast ty expression span => by
    rw [Expr.Written, Expr.encode]
    exact ⟨_, rfl, .keep ty.written_encode (.keep expression.written_encode (.keep rfl .nil))⟩
  | .instanceOf expression ty span => by
    rw [Expr.Written, Expr.encode]
    exact ⟨_, rfl, .keep expression.written_encode (.keep ty.written_encode (.keep rfl .nil))⟩
  | .group expression span => by
    rw [Expr.Written, Expr.encode]
    exact ⟨_, rfl, .keep expression.written_encode (.keep rfl .nil)⟩

theorem Expr.allWritten_encodeAll : ∀ es : List Expr, Expr.AllWritten es (Expr.encodeAll es)
  | [] => by rw [Expr.AllWritten, Expr.encodeAll]
  | e :: rest => by
    rw [Expr.AllWritten, Expr.encodeAll]
    exact ⟨_, _, rfl, e.written_encode, Expr.allWritten_encodeAll rest⟩

end

/-- The encoding of an option is a form of it. -/
theorem Json.isOption_ofOption {α : Type} {Written : α → Json → Prop} {encode : α → Json}
    (h : ∀ a, Written a (encode a)) : ∀ o : Option α, IsOption Written o (Json.ofOption encode o)
  | none => rfl
  | some a => h a

mutual

theorem Stmt.written_encode : ∀ s : Stmt, s.Written s.encode
  | .localVariable ty name value span => by
    rw [Stmt.Written, Stmt.encode]
    exact ⟨_, rfl, .keep ty.written_encode (.keep name.written_encode
      (.keep (Json.isOption_ofOption Expr.written_encode value) (.keep rfl .nil)))⟩
  | .assign target op value span => by
    rw [Stmt.Written, Stmt.encode]
    exact ⟨_, rfl, .keep target.written_encode (.keep rfl
      (.keep value.written_encode (.keep rfl .nil)))⟩
  | .fieldAssign receiver field op value span => by
    rw [Stmt.Written, Stmt.encode]
    exact ⟨_, rfl, .keep receiver.written_encode (.keep field.written_encode (.keep rfl
      (.keep value.written_encode (.keep rfl .nil))))⟩
  | .expression e span => by
    rw [Stmt.Written, Stmt.encode]
    exact ⟨_, rfl, .keep e.written_encode (.keep rfl .nil)⟩
  | .ifElse condition thenBranch none span => by
    rw [Stmt.Written, Stmt.encode]
    exact ⟨_, rfl, .keep condition.written_encode
      (.keep ⟨_, rfl, Stmt.allWritten_encodeAll thenBranch⟩ (.keep rfl (.keep rfl .nil)))⟩
  | .ifElse condition thenBranch (some elseBranch) span => by
    rw [Stmt.Written, Stmt.encode]
    exact ⟨_, rfl, .keep condition.written_encode
      (.keep ⟨_, rfl, Stmt.allWritten_encodeAll thenBranch⟩
      (.keep ⟨_, rfl, Stmt.allWritten_encodeAll elseBranch⟩ (.keep rfl .nil)))⟩
  | .whileLoop condition body span => by
    rw [Stmt.Written, Stmt.encode]
    exact ⟨_, rfl, .keep condition.written_encode
      (.keep ⟨_, rfl, Stmt.allWritten_encodeAll body⟩ (.keep rfl .nil))⟩
  | .forLoop init condition update body span => by
    rw [Stmt.Written, Stmt.encode]
    exact ⟨_, rfl, .keep init.written_encode (.keep condition.written_encode
      (.keep update.written_encode
      (.keep ⟨_, rfl, Stmt.allWritten_encodeAll body⟩ (.keep rfl .nil))))⟩
  | .returns value span => by
    rw [Stmt.Written, Stmt.encode]
    exact ⟨_, rfl, .keep (Json.isOption_ofOption Expr.written_encode value) (.keep rfl .nil)⟩
  | .block statements span => by
    rw [Stmt.Written, Stmt.encode]
    exact ⟨_, rfl, .keep ⟨_, rfl, Stmt.allWritten_encodeAll statements⟩ (.keep rfl .nil)⟩

theorem Stmt.allWritten_encodeAll : ∀ ss : List Stmt, Stmt.AllWritten ss (Stmt.encodeAll ss)
  | [] => by rw [Stmt.AllWritten, Stmt.encodeAll]
  | s :: rest => by
    rw [Stmt.AllWritten, Stmt.encodeAll]
    exact ⟨_, _, rfl, s.written_encode, Stmt.allWritten_encodeAll rest⟩

end

/-- The encodings of the members of a list are a form of it. -/
theorem Json.isArray_map {α : Type} {Written : α → Json → Prop} {encode : α → Json}
    (h : ∀ a, Written a (encode a)) (as : List α) :
    IsArray (List.Forall₂ Written as) (array (as.map encode)) := ⟨_, rfl, forall₂_map_self h as⟩

theorem Parameter.written_encode (p : Parameter) : p.Written p.encode :=
  ⟨_, rfl, .keep p.ty.written_encode (.keep p.name.written_encode .nil)⟩

theorem FieldDecl.written_encode (f : FieldDecl) : f.Written f.encode :=
  ⟨_, rfl, .keep f.ty.written_encode (.keep f.name.written_encode (.keep rfl .nil))⟩

theorem ConstructorDecl.written_encode (c : ConstructorDecl) : c.Written c.encode :=
  ⟨_, rfl, .keep (Json.isArray_map Parameter.written_encode c.parameters)
    (.keep (Json.isOption_ofOption (fun es => ⟨_, rfl, Expr.allWritten_encodeAll es⟩) c.superArguments)
    (.keep ⟨_, rfl, Stmt.allWritten_encodeAll c.body⟩ (.keep rfl .nil)))⟩

theorem MethodDecl.written_encode (m : MethodDecl) : m.Written m.encode :=
  ⟨_, rfl, .keep m.name.written_encode (.keep rfl
    (.keep (Json.isArray_map Identifier.written_encode m.generics)
    (.keep (Json.isOption_ofOption TypeExpr.written_encode m.returnType)
    (.keep (Json.isArray_map Parameter.written_encode m.parameters)
    (.keep ⟨_, rfl, Stmt.allWritten_encodeAll m.body⟩ (.keep rfl .nil))))))⟩

theorem ClassDecl.written_encode (c : ClassDecl) : c.Written c.encode :=
  ⟨_, rfl, .keep c.name.written_encode
    (.keep (Json.isArray_map Identifier.written_encode c.generics)
    (.keep (Json.isOption_ofOption TypeExpr.written_encode c.base)
    (.keep (Json.isArray_map FieldDecl.written_encode c.fields)
    (.keep (Json.isArray_map ConstructorDecl.written_encode c.constructors)
    (.keep (Json.isArray_map MethodDecl.written_encode c.methods) (.keep rfl .nil))))))⟩

theorem Import.written_encode (i : Import) : i.Written i.encode :=
  ⟨_, rfl, .keep (Json.isArray_map Identifier.written_encode i.path) (.keep rfl (.keep rfl .nil))⟩

/-- The encoding of a program is a form of it, with nothing left out. -/
theorem Program.written_encode (p : Program) : p.Written p.encode :=
  ⟨_, rfl, .keep rfl (.keep (Json.isArray_map Import.written_encode p.imports)
    (.keep (Json.isArray_map ClassDecl.written_encode p.classes) .nil))⟩

end Middleweight
