import Middleweight.Proofs.Syntax.Written

/-!
# Programs with finite literals

JSON text has no numeral for an infinite float or for one that is not a number. If the float literals
of a program are finite, then so are all numbers in its forms.

* `Program.finite_of_written` : finite literals give finite numbers
-/

namespace Middleweight

open Json (Part IsRecord IsNode IsArray IsOption Abridged string array object)

/-! ## Values -/

mutual

/-- No number of a value is infinite or not a number, so that JSON text can write it. -/
def Json.IsFinite : Json → Prop
  | .float x => x.isFinite = true
  | .array items => Json.AllFinite items
  | .object members => Json.MembersFinite members
  | .null | .bool _ | .int _ | .string _ => True

def Json.AllFinite : List Json → Prop
  | [] => True
  | j :: rest => j.IsFinite ∧ Json.AllFinite rest

def Json.MembersFinite : List (String × Json) → Prop
  | [] => True
  | (_, j) :: rest => j.IsFinite ∧ Json.MembersFinite rest

end

/-- An array is finite if its items are. -/
theorem Json.isFinite_array {js : List Json} :
    (array js).IsFinite ↔ ∀ j ∈ js, j.IsFinite := by
  show Json.AllFinite js ↔ _
  induction js with
  | nil => simp [Json.AllFinite]
  | cons j rest ih => simp [Json.AllFinite, ih]

/-- An object is finite if its members are. -/
theorem Json.isFinite_object {ms : List (String × Json)} :
    (object ms).IsFinite ↔ ∀ m ∈ ms, m.2.IsFinite := by
  show Json.MembersFinite ms ↔ _
  induction ms with
  | nil => simp [Json.MembersFinite]
  | cons m rest ih => simp [Json.MembersFinite, ih]

namespace Json

variable {ps : List Part} {j : Json}

theorem isFinite_string {s : String} (h : j = string s) : j.IsFinite := by
  subst h
  exact True.intro

theorem isFinite_bool {b : Bool} (h : j = .bool b) : j.IsFinite := by
  subst h
  exact True.intro

theorem isFinite_null (h : j = .null) : j.IsFinite := by
  subst h
  exact True.intro

/-- A record is finite if all values that its parts allow are. -/
theorem IsRecord.isFinite (h : IsRecord ps j) (hps : ∀ p ∈ ps, ∀ k, p.Holds k → k.IsFinite) :
    j.IsFinite := by
  obtain ⟨ms, rfl, h⟩ := h
  exact isFinite_object.mpr (h.forall_mem hps)

/-- So is a node with a kind. -/
theorem IsNode.isFinite {kind : String} (h : IsNode kind ps j)
    (hps : ∀ p ∈ ps, ∀ k, p.Holds k → k.IsFinite) : j.IsFinite := by
  obtain ⟨ms, rfl, h⟩ := h
  refine isFinite_object.mpr (List.forall_mem_cons.mpr ⟨?_, h.forall_mem hps⟩)
  exact isFinite_string rfl

theorem IsOption.isFinite {α : Type} {Holds : α → Json → Prop} {o : Option α}
    (h : IsOption Holds o j) (ho : ∀ a ∈ o, ∀ j, Holds a j → j.IsFinite) : j.IsFinite := by
  cases o with
  | none => exact isFinite_null h
  | some a => exact ho a rfl j h

theorem IsArray.isFinite {α : Type} {Written : α → Json → Prop} {as : List α}
    (h : IsArray (List.Forall₂ Written as) j)
    (has : ∀ a ∈ as, ∀ j, Written a j → j.IsFinite) : j.IsFinite := by
  obtain ⟨js, rfl, h⟩ := h
  refine isFinite_array.mpr fun k hk => ?_
  obtain ⟨a, ha, hw⟩ := exists_of_forall₂_mem h hk
  exact has a ha k hw

end Json

theorem Span.isFinite_encode (s : Span) : s.encode.IsFinite :=
  Json.isFinite_object.mpr (by simp [Json.IsFinite])

/-! ## Programs -/

/-- The literals with a finite value. -/
def Literal.IsFinite : Literal → Prop
  | .float x => x.isFinite = true
  | _ => True

/-- A finite literal has a finite encoding. -/
theorem Literal.isFinite_encode {l : Literal} (h : l.IsFinite) : l.encode.IsFinite := by
  cases l <;> simp_all [Literal.encode, Literal.IsFinite, Json.isFinite_object, Json.IsFinite]

mutual

/-- The expressions with finite literals only. -/
def Expr.IsFinite : Expr → Prop
  | .literal value _ => value.IsFinite
  | .var _ => True
  | .binary lhs _ rhs _ => lhs.IsFinite ∧ rhs.IsFinite
  | .unary _ e _ => e.IsFinite
  | .step _ _ e _ => e.IsFinite
  | .ternary c a b _ => c.IsFinite ∧ a.IsFinite ∧ b.IsFinite
  | .new _ args _ => Expr.AllFinite args
  | .field e _ _ => e.IsFinite
  | .call e _ args _ => e.IsFinite ∧ Expr.AllFinite args
  | .cast _ e _ => e.IsFinite
  | .instanceOf e _ _ => e.IsFinite
  | .group e _ => e.IsFinite

def Expr.AllFinite : List Expr → Prop
  | [] => True
  | e :: rest => e.IsFinite ∧ Expr.AllFinite rest

end

mutual

/-- The statements with finite literals only. -/
def Stmt.IsFinite : Stmt → Prop
  | .localVariable _ _ value _ => ∀ e ∈ value, e.IsFinite
  | .assign _ _ e _ => e.IsFinite
  | .fieldAssign receiver _ _ e _ => receiver.IsFinite ∧ e.IsFinite
  | .expression e _ => e.IsFinite
  | .ifElse c thenBranch none _ => c.IsFinite ∧ Stmt.AllFinite thenBranch
  | .ifElse c thenBranch (some elseBranch) _ =>
    c.IsFinite ∧ Stmt.AllFinite thenBranch ∧ Stmt.AllFinite elseBranch
  | .whileLoop c body _ => c.IsFinite ∧ Stmt.AllFinite body
  | .forLoop init c update body _ =>
    init.IsFinite ∧ c.IsFinite ∧ update.IsFinite ∧ Stmt.AllFinite body
  | .returns value _ => ∀ e ∈ value, e.IsFinite
  | .block body _ => Stmt.AllFinite body

def Stmt.AllFinite : List Stmt → Prop
  | [] => True
  | s :: rest => s.IsFinite ∧ Stmt.AllFinite rest

end

/-- The constructors with finite literals only. -/
def ConstructorDecl.IsFinite (c : ConstructorDecl) : Prop :=
  (∀ es ∈ c.superArguments, Expr.AllFinite es) ∧ Stmt.AllFinite c.body

/-- The programs with finite literals only. -/
def Program.IsFinite (p : Program) : Prop :=
  ∀ c ∈ p.classes, (∀ k ∈ c.constructors, k.IsFinite) ∧ ∀ m ∈ c.methods, Stmt.AllFinite m.body

/-! ## Forms -/

theorem Span.isFinite_part (s : Span) : ∀ j, s.part.Holds j → j.IsFinite := by
  rintro _ rfl
  exact s.isFinite_encode

theorem Identifier.isFinite_parts (i : Identifier) :
    ∀ p ∈ i.parts, ∀ j, p.Holds j → j.IsFinite := by
  simp only [Identifier.parts, List.forall_mem_cons]
  exact ⟨fun _ => Json.isFinite_string, i.span.isFinite_part, by simp⟩

theorem Identifier.finite_of_written {i : Identifier} {j : Json} (h : i.Written j) : j.IsFinite :=
  Json.IsRecord.isFinite h i.isFinite_parts

mutual

/-- All forms of types are finite, since there are no numbers but those of spans in them. -/
theorem TypeExpr.finite_of_written : ∀ {t : TypeExpr} {j : Json}, t.Written j → j.IsFinite
  | ⟨name, generics, span⟩, j, hw => by
    rw [TypeExpr.Written] at hw
    refine hw.isFinite ?_
    simp only [List.forall_mem_cons]
    exact ⟨fun _ => Json.isFinite_string, fun _ => TypeExpr.finite_of_allWritten,
      span.isFinite_part, by simp⟩

theorem TypeExpr.finite_of_allWritten : ∀ {ts : List TypeExpr} {j : Json},
    IsArray (TypeExpr.AllWritten ts) j → j.IsFinite
  | [], _, ⟨_, rfl, hw⟩ => by
    rw [TypeExpr.AllWritten] at hw
    simp [hw, Json.isFinite_array]
  | t :: rest, _, ⟨_, rfl, hw⟩ => by
    rw [TypeExpr.AllWritten] at hw
    obtain ⟨j, js, rfl, hj, hrest⟩ := hw
    exact Json.isFinite_array.mpr (List.forall_mem_cons.mpr ⟨TypeExpr.finite_of_written hj,
      Json.isFinite_array.mp (TypeExpr.finite_of_allWritten ⟨js, rfl, hrest⟩)⟩)

end

mutual

/-- The forms of a finite expression are finite, by induction on the expression. -/
theorem Expr.finite_of_written : ∀ {e : Expr} {j : Json}, e.IsFinite → e.Written j → j.IsFinite
  | .literal value span, j, hf, hw => by
    rw [Expr.IsFinite] at hf
    rw [Expr.Written] at hw
    refine hw.isFinite ?_
    simp only [List.forall_mem_cons]
    exact ⟨fun _ hj => hj ▸ Literal.isFinite_encode hf, span.isFinite_part, by simp⟩
  | .var name, j, _, hw => by
    rw [Expr.Written] at hw
    exact hw.isFinite name.isFinite_parts
  | .binary lhs op rhs span, j, hf, hw => by
    rw [Expr.IsFinite] at hf
    rw [Expr.Written] at hw
    refine hw.isFinite ?_
    simp only [List.forall_mem_cons]
    exact ⟨fun _ => Expr.finite_of_written hf.1, fun _ => Json.isFinite_string,
      fun _ => Expr.finite_of_written hf.2, span.isFinite_part, by simp⟩
  | .unary op operand span, j, hf, hw => by
    rw [Expr.IsFinite] at hf
    rw [Expr.Written] at hw
    refine hw.isFinite ?_
    simp only [List.forall_mem_cons]
    exact ⟨fun _ => Json.isFinite_string, fun _ => Expr.finite_of_written hf, span.isFinite_part,
      by simp⟩
  | .step op before target span, j, hf, hw => by
    rw [Expr.IsFinite] at hf
    rw [Expr.Written] at hw
    refine hw.isFinite ?_
    simp only [List.forall_mem_cons]
    exact ⟨fun _ => Json.isFinite_string, fun _ => Json.isFinite_bool,
      fun _ => Expr.finite_of_written hf, span.isFinite_part, by simp⟩
  | .ternary condition thenValue elseValue span, j, hf, hw => by
    rw [Expr.IsFinite] at hf
    rw [Expr.Written] at hw
    refine hw.isFinite ?_
    simp only [List.forall_mem_cons]
    exact ⟨fun _ => Expr.finite_of_written hf.1, fun _ => Expr.finite_of_written hf.2.1,
      fun _ => Expr.finite_of_written hf.2.2, span.isFinite_part, by simp⟩
  | .new ty arguments span, j, hf, hw => by
    rw [Expr.IsFinite] at hf
    rw [Expr.Written] at hw
    refine hw.isFinite ?_
    simp only [List.forall_mem_cons]
    exact ⟨fun _ => TypeExpr.finite_of_written, fun _ => Expr.finite_of_allWritten hf,
      span.isFinite_part, by simp⟩
  | .field receiver name span, j, hf, hw => by
    rw [Expr.IsFinite] at hf
    rw [Expr.Written] at hw
    refine hw.isFinite ?_
    simp only [List.forall_mem_cons]
    exact ⟨fun _ => Expr.finite_of_written hf, fun _ => Identifier.finite_of_written,
      span.isFinite_part, by simp⟩
  | .call receiver method arguments span, j, hf, hw => by
    rw [Expr.IsFinite] at hf
    rw [Expr.Written] at hw
    refine hw.isFinite ?_
    simp only [List.forall_mem_cons]
    exact ⟨fun _ => Expr.finite_of_written hf.1, fun _ => Identifier.finite_of_written,
      fun _ => Expr.finite_of_allWritten hf.2, span.isFinite_part, by simp⟩
  | .cast ty expression span, j, hf, hw => by
    rw [Expr.IsFinite] at hf
    rw [Expr.Written] at hw
    refine hw.isFinite ?_
    simp only [List.forall_mem_cons]
    exact ⟨fun _ => TypeExpr.finite_of_written, fun _ => Expr.finite_of_written hf,
      span.isFinite_part, by simp⟩
  | .instanceOf expression ty span, j, hf, hw => by
    rw [Expr.IsFinite] at hf
    rw [Expr.Written] at hw
    refine hw.isFinite ?_
    simp only [List.forall_mem_cons]
    exact ⟨fun _ => Expr.finite_of_written hf, fun _ => TypeExpr.finite_of_written,
      span.isFinite_part, by simp⟩
  | .group expression span, j, hf, hw => by
    rw [Expr.IsFinite] at hf
    rw [Expr.Written] at hw
    refine hw.isFinite ?_
    simp only [List.forall_mem_cons]
    exact ⟨fun _ => Expr.finite_of_written hf, span.isFinite_part, by simp⟩

theorem Expr.finite_of_allWritten : ∀ {es : List Expr} {j : Json}, Expr.AllFinite es →
    IsArray (Expr.AllWritten es) j → j.IsFinite
  | [], _, _, ⟨_, rfl, hw⟩ => by
    rw [Expr.AllWritten] at hw
    simp [hw, Json.isFinite_array]
  | e :: rest, _, hf, ⟨_, rfl, hw⟩ => by
    rw [Expr.AllFinite] at hf
    rw [Expr.AllWritten] at hw
    obtain ⟨j, js, rfl, hj, hrest⟩ := hw
    exact Json.isFinite_array.mpr (List.forall_mem_cons.mpr ⟨Expr.finite_of_written hf.1 hj,
      Json.isFinite_array.mp (Expr.finite_of_allWritten hf.2 ⟨js, rfl, hrest⟩)⟩)

end

mutual

/-- The forms of a finite statement are finite, by induction on the statement. -/
theorem Stmt.finite_of_written : ∀ {s : Stmt} {j : Json}, s.IsFinite → s.Written j → j.IsFinite
  | .localVariable ty name value span, j, hf, hw => by
    rw [Stmt.IsFinite] at hf
    rw [Stmt.Written] at hw
    refine hw.isFinite ?_
    simp only [List.forall_mem_cons]
    exact ⟨fun _ => TypeExpr.finite_of_written, fun _ => Identifier.finite_of_written,
      fun _ hj => hj.isFinite fun e he _ => Expr.finite_of_written (hf e he), span.isFinite_part,
      by simp⟩
  | .assign target op value span, j, hf, hw => by
    rw [Stmt.IsFinite] at hf
    rw [Stmt.Written] at hw
    refine hw.isFinite ?_
    simp only [List.forall_mem_cons]
    exact ⟨fun _ => Identifier.finite_of_written, fun _ => Json.isFinite_string,
      fun _ => Expr.finite_of_written hf, span.isFinite_part, by simp⟩
  | .fieldAssign receiver field op value span, j, hf, hw => by
    rw [Stmt.IsFinite] at hf
    rw [Stmt.Written] at hw
    refine hw.isFinite ?_
    simp only [List.forall_mem_cons]
    exact ⟨fun _ => Expr.finite_of_written hf.1, fun _ => Identifier.finite_of_written,
      fun _ => Json.isFinite_string, fun _ => Expr.finite_of_written hf.2, span.isFinite_part,
      by simp⟩
  | .expression e span, j, hf, hw => by
    rw [Stmt.IsFinite] at hf
    rw [Stmt.Written] at hw
    refine hw.isFinite ?_
    simp only [List.forall_mem_cons]
    exact ⟨fun _ => Expr.finite_of_written hf, span.isFinite_part, by simp⟩
  | .ifElse condition thenBranch none span, j, hf, hw => by
    rw [Stmt.IsFinite] at hf
    rw [Stmt.Written] at hw
    refine hw.isFinite ?_
    simp only [List.forall_mem_cons]
    exact ⟨fun _ => Expr.finite_of_written hf.1, fun _ => Stmt.finite_of_allWritten hf.2,
      fun _ => Json.isFinite_null, span.isFinite_part, by simp⟩
  | .ifElse condition thenBranch (some elseBranch) span, j, hf, hw => by
    rw [Stmt.IsFinite] at hf
    rw [Stmt.Written] at hw
    refine hw.isFinite ?_
    simp only [List.forall_mem_cons]
    exact ⟨fun _ => Expr.finite_of_written hf.1, fun _ => Stmt.finite_of_allWritten hf.2.1,
      fun _ => Stmt.finite_of_allWritten hf.2.2, span.isFinite_part, by simp⟩
  | .whileLoop condition body span, j, hf, hw => by
    rw [Stmt.IsFinite] at hf
    rw [Stmt.Written] at hw
    refine hw.isFinite ?_
    simp only [List.forall_mem_cons]
    exact ⟨fun _ => Expr.finite_of_written hf.1, fun _ => Stmt.finite_of_allWritten hf.2,
      span.isFinite_part, by simp⟩
  | .forLoop init condition update body span, j, hf, hw => by
    rw [Stmt.IsFinite] at hf
    rw [Stmt.Written] at hw
    refine hw.isFinite ?_
    simp only [List.forall_mem_cons]
    exact ⟨fun _ => Stmt.finite_of_written hf.1, fun _ => Expr.finite_of_written hf.2.1,
      fun _ => Stmt.finite_of_written hf.2.2.1, fun _ => Stmt.finite_of_allWritten hf.2.2.2,
      span.isFinite_part, by simp⟩
  | .returns value span, j, hf, hw => by
    rw [Stmt.IsFinite] at hf
    rw [Stmt.Written] at hw
    refine hw.isFinite ?_
    simp only [List.forall_mem_cons]
    exact ⟨fun _ hj => hj.isFinite fun e he _ => Expr.finite_of_written (hf e he),
      span.isFinite_part, by simp⟩
  | .block statements span, j, hf, hw => by
    rw [Stmt.IsFinite] at hf
    rw [Stmt.Written] at hw
    refine hw.isFinite ?_
    simp only [List.forall_mem_cons]
    exact ⟨fun _ => Stmt.finite_of_allWritten hf, span.isFinite_part, by simp⟩

theorem Stmt.finite_of_allWritten : ∀ {ss : List Stmt} {j : Json}, Stmt.AllFinite ss →
    IsArray (Stmt.AllWritten ss) j → j.IsFinite
  | [], _, _, ⟨_, rfl, hw⟩ => by
    rw [Stmt.AllWritten] at hw
    simp [hw, Json.isFinite_array]
  | s :: rest, _, hf, ⟨_, rfl, hw⟩ => by
    rw [Stmt.AllFinite] at hf
    rw [Stmt.AllWritten] at hw
    obtain ⟨j, js, rfl, hj, hrest⟩ := hw
    exact Json.isFinite_array.mpr (List.forall_mem_cons.mpr ⟨Stmt.finite_of_written hf.1 hj,
      Json.isFinite_array.mp (Stmt.finite_of_allWritten hf.2 ⟨js, rfl, hrest⟩)⟩)

end

theorem Parameter.finite_of_written {p : Parameter} {j : Json} (hw : p.Written j) :
    j.IsFinite := by
  refine Json.IsRecord.isFinite hw ?_
  simp only [List.forall_mem_cons]
  exact ⟨fun _ => TypeExpr.finite_of_written, fun _ => Identifier.finite_of_written, by simp⟩

theorem FieldDecl.finite_of_written {f : FieldDecl} {j : Json} (hw : f.Written j) :
    j.IsFinite := by
  refine Json.IsRecord.isFinite hw ?_
  simp only [List.forall_mem_cons]
  exact ⟨fun _ => TypeExpr.finite_of_written, fun _ => Identifier.finite_of_written,
    f.span.isFinite_part, by simp⟩

theorem ConstructorDecl.finite_of_written {c : ConstructorDecl} {j : Json} (hf : c.IsFinite)
    (hw : c.Written j) : j.IsFinite := by
  refine Json.IsRecord.isFinite hw ?_
  simp only [List.forall_mem_cons]
  exact ⟨fun _ hj => hj.isFinite fun _ _ _ => Parameter.finite_of_written,
    fun _ hj => hj.isFinite fun es hes _ => Expr.finite_of_allWritten (hf.1 es hes),
    fun _ => Stmt.finite_of_allWritten hf.2, c.span.isFinite_part, by simp⟩

theorem MethodDecl.finite_of_written {m : MethodDecl} {j : Json} (hf : Stmt.AllFinite m.body)
    (hw : m.Written j) : j.IsFinite := by
  refine Json.IsRecord.isFinite hw ?_
  simp only [List.forall_mem_cons]
  exact ⟨fun _ => Identifier.finite_of_written, fun _ => Json.isFinite_bool,
    fun _ hj => hj.isFinite fun _ _ _ => Identifier.finite_of_written,
    fun _ hj => hj.isFinite fun _ _ _ => TypeExpr.finite_of_written,
    fun _ hj => hj.isFinite fun _ _ _ => Parameter.finite_of_written,
    fun _ => Stmt.finite_of_allWritten hf, m.span.isFinite_part, by simp⟩

/-- The forms of a class are finite if the bodies of its members are. -/
theorem ClassDecl.finite_of_written {c : ClassDecl} {j : Json}
    (hf : (∀ k ∈ c.constructors, k.IsFinite) ∧ ∀ m ∈ c.methods, Stmt.AllFinite m.body)
    (hw : c.Written j) : j.IsFinite := by
  refine Json.IsRecord.isFinite hw ?_
  simp only [List.forall_mem_cons]
  exact ⟨fun _ => Identifier.finite_of_written,
    fun _ hj => hj.isFinite fun _ _ _ => Identifier.finite_of_written,
    fun _ hj => hj.isFinite fun _ _ _ => TypeExpr.finite_of_written,
    fun _ hj => hj.isFinite fun _ _ _ => FieldDecl.finite_of_written,
    fun _ hj => hj.isFinite fun k hk _ => ConstructorDecl.finite_of_written (hf.1 k hk),
    fun _ hj => hj.isFinite fun m hm _ => MethodDecl.finite_of_written (hf.2 m hm),
    c.span.isFinite_part, by simp⟩

theorem Import.finite_of_written {i : Import} {j : Json} (hw : i.Written j) : j.IsFinite := by
  refine Json.IsRecord.isFinite hw ?_
  simp only [List.forall_mem_cons]
  exact ⟨fun _ hj => hj.isFinite fun _ _ _ => Identifier.finite_of_written,
    fun _ => Json.isFinite_bool, i.span.isFinite_part, by simp⟩

/-- A program with finite literals has forms with finite numbers. -/
theorem Program.finite_of_written {p : Program} {j : Json} (hf : p.IsFinite) (hw : p.Written j) :
    j.IsFinite := by
  refine Json.IsRecord.isFinite hw ?_
  simp only [List.forall_mem_cons]
  exact ⟨fun _ => Json.isFinite_string,
    fun _ hj => hj.isFinite fun _ _ _ => Import.finite_of_written,
    fun _ hj => hj.isFinite fun c hc _ => ClassDecl.finite_of_written (hf c hc), by simp⟩

end Middleweight
