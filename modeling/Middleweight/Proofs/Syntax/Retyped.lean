import Middleweight.Analysis.Expand
import Middleweight.Analysis.Regroup
import Middleweight.Proofs.Basic

/-!
# Bodies that differ in written types

Two bodies of one shape whose types correspond, place by place. Expansion gives such a body, and it
keeps the shape of two such bodies, as regrouping does.

* `Expr.retyped_of_expand`, `Stmt.retyped_of_expand` : a body and its expansion
* `Expr.retyped_refl`, `Stmt.retyped_refl` : a body and itself
* `Expr.Retyped.expand_concur`, `Stmt.Retyped.expand_concur` : two bodies expanded
* `Expr.Retyped.regroup`, `Stmt.Retyped.regroup` : two bodies regrouped
-/

namespace Middleweight

variable {F : Type}

/-! ## Expressions -/

mutual

/-- Two expressions that differ only in their types, which are related. -/
inductive Expr.Retyped (R : TypeExpr → TypeExpr → Prop) : Expr → Expr → Prop
  | literal (value : Literal) (span : Span) : Retyped R (.literal value span) (.literal value span)
  | var (name : Identifier) : Retyped R (.var name) (.var name)
  | binary {l l' r r' : Expr} (op : BinaryOp) (span : Span) :
      Retyped R l l' → Retyped R r r' → Retyped R (.binary l op r span) (.binary l' op r' span)
  | unary {e e' : Expr} (op : UnaryOp) (span : Span) :
      Retyped R e e' → Retyped R (.unary op e span) (.unary op e' span)
  | step {e e' : Expr} (op : StepOp) (before : Bool) (span : Span) :
      Retyped R e e' → Retyped R (.step op before e span) (.step op before e' span)
  | ternary {c c' a a' b b' : Expr} (span : Span) :
      Retyped R c c' → Retyped R a a' → Retyped R b b' →
      Retyped R (.ternary c a b span) (.ternary c' a' b' span)
  | new {ty ty' : TypeExpr} {es es' : List Expr} (span : Span) :
      R ty ty' → AllRetyped R es es' → Retyped R (.new ty es span) (.new ty' es' span)
  | field {e e' : Expr} (name : Identifier) (span : Span) :
      Retyped R e e' → Retyped R (.field e name span) (.field e' name span)
  | call {e e' : Expr} {es es' : List Expr} (method : Identifier) (span : Span) :
      Retyped R e e' → AllRetyped R es es' →
      Retyped R (.call e method es span) (.call e' method es' span)
  | cast {ty ty' : TypeExpr} {e e' : Expr} (span : Span) :
      R ty ty' → Retyped R e e' → Retyped R (.cast ty e span) (.cast ty' e' span)
  | instanceOf {ty ty' : TypeExpr} {e e' : Expr} (span : Span) :
      R ty ty' → Retyped R e e' → Retyped R (.instanceOf e ty span) (.instanceOf e' ty' span)
  | group {e e' : Expr} (span : Span) : Retyped R e e' → Retyped R (.group e span) (.group e' span)

/-- Two lists of such expressions. -/
inductive Expr.AllRetyped (R : TypeExpr → TypeExpr → Prop) : List Expr → List Expr → Prop
  | nil : AllRetyped R [] []
  | cons {e e' : Expr} {es es' : List Expr} :
      Retyped R e e' → AllRetyped R es es' → AllRetyped R (e :: es) (e' :: es')

end

namespace Expr

variable {R : TypeExpr → TypeExpr → Prop} {t : ClassTable F} {g : List String}

theorem Retyped.span_eq {e e' : Expr} (h : e.Retyped R e') : e'.span = e.span := by
  cases h <;> rfl

/-- Whether an expression is the literal `null` does not depend on the types it writes. -/
theorem isNullLiteral_eq_of_retyped : ∀ {e e' : Expr}, e.Retyped R e' →
    e'.isNullLiteral = e.isNullLiteral
  | _, _, .group _ h => by
    rw [isNullLiteral, isNullLiteral]
    exact isNullLiteral_eq_of_retyped h
  | _, _, .literal _ _ => rfl
  | _, _, .var _ => rfl
  | _, _, .binary _ _ _ _ => rfl
  | _, _, .unary _ _ _ => rfl
  | _, _, .step _ _ _ _ => rfl
  | _, _, .ternary _ _ _ _ => rfl
  | _, _, .new _ _ _ => rfl
  | _, _, .field _ _ _ => rfl
  | _, _, .call _ _ _ _ => rfl
  | _, _, .cast _ _ _ => rfl
  | _, _, .instanceOf _ _ _ => rfl

mutual

/-- Expansion changes the types of an expression only. -/
theorem retyped_of_expand (hR : ∀ a b : TypeExpr, a.expand t g = .ok b → R a b) :
    ∀ {e e' : Expr}, e.expand t g = .ok e' → e.Retyped R e'
  | literal value span, e', h => by
    rw [expand] at h
    cases h
    exact .literal value span
  | .var name, e', h => by
    rw [expand] at h
    cases h
    exact .var name
  | binary lhs op rhs span, e', h => by
    rw [expand] at h
    obtain ⟨lhs', hl, h⟩ := ok_of_bind h
    obtain ⟨rhs', hr, h⟩ := ok_of_bind h
    cases h
    exact .binary op span (retyped_of_expand hR hl) (retyped_of_expand hR hr)
  | unary op operand span, e', h => by
    rw [expand] at h
    obtain ⟨operand', ho, h⟩ := ok_of_bind h
    cases h
    exact .unary op span (retyped_of_expand hR ho)
  | step op before target span, e', h => by
    rw [expand] at h
    obtain ⟨target', ht, h⟩ := ok_of_bind h
    cases h
    exact .step op before span (retyped_of_expand hR ht)
  | ternary c a b span, e', h => by
    rw [expand] at h
    obtain ⟨c', hc, h⟩ := ok_of_bind h
    obtain ⟨a', ha, h⟩ := ok_of_bind h
    obtain ⟨b', hb, h⟩ := ok_of_bind h
    cases h
    exact .ternary span (retyped_of_expand hR hc) (retyped_of_expand hR ha) (retyped_of_expand hR hb)
  | new ty args span, e', h => by
    rw [expand] at h
    obtain ⟨ty', hty, h⟩ := ok_of_bind h
    obtain ⟨args', hargs, h⟩ := ok_of_bind h
    cases h
    exact .new span (hR _ _ hty) (allRetyped_of_expandAll hR hargs)
  | field receiver name span, e', h => by
    rw [expand] at h
    obtain ⟨receiver', hr, h⟩ := ok_of_bind h
    cases h
    exact .field name span (retyped_of_expand hR hr)
  | call receiver method args span, e', h => by
    rw [expand] at h
    obtain ⟨receiver', hr, h⟩ := ok_of_bind h
    obtain ⟨args', hargs, h⟩ := ok_of_bind h
    cases h
    exact .call method span (retyped_of_expand hR hr) (allRetyped_of_expandAll hR hargs)
  | cast ty expression span, e', h => by
    rw [expand] at h
    obtain ⟨ty', hty, h⟩ := ok_of_bind h
    obtain ⟨expression', he, h⟩ := ok_of_bind h
    cases h
    exact .cast span (hR _ _ hty) (retyped_of_expand hR he)
  | instanceOf expression ty span, e', h => by
    rw [expand] at h
    obtain ⟨ty', hty, h⟩ := ok_of_bind h
    obtain ⟨expression', he, h⟩ := ok_of_bind h
    cases h
    exact .instanceOf span (hR _ _ hty) (retyped_of_expand hR he)
  | group expression span, e', h => by
    rw [expand] at h
    obtain ⟨expression', he, h⟩ := ok_of_bind h
    cases h
    exact .group span (retyped_of_expand hR he)

theorem allRetyped_of_expandAll (hR : ∀ a b : TypeExpr, a.expand t g = .ok b → R a b) :
    ∀ {es es' : List Expr}, expandAll t g es = .ok es' → AllRetyped R es es'
  | [], es', h => by
    rw [expandAll] at h
    cases h
    exact .nil
  | e :: rest, es', h => by
    rw [expandAll] at h
    obtain ⟨e', he, h⟩ := ok_of_bind h
    obtain ⟨rest', hrest, h⟩ := ok_of_bind h
    cases h
    exact .cons (retyped_of_expand hR he) (allRetyped_of_expandAll hR hrest)

end

theorem retyped_of_expandOption (hR : ∀ a b : TypeExpr, a.expand t g = .ok b → R a b)
    {e e' : Option Expr} (h : expandOption t g e = .ok e') : Option.Rel (Retyped R) e e' := by
  cases e with
  | none =>
    cases h
    exact .none
  | some e =>
    obtain ⟨e₁, he, rfl⟩ := ok_of_map h
    exact .some (retyped_of_expand hR he)

theorem retyped_of_expandSuper (hR : ∀ a b : TypeExpr, a.expand t g = .ok b → R a b)
    {es es' : Option (List Expr)} (h : expandSuper t g es = .ok es') :
    Option.Rel (AllRetyped R) es es' := by
  cases es with
  | none =>
    cases h
    exact .none
  | some es =>
    obtain ⟨es₁, hes, rfl⟩ := ok_of_map h
    exact .some (allRetyped_of_expandAll hR hes)

mutual

/-- An expression and itself, if types are related to themselves. -/
theorem retyped_refl (hR : ∀ ty, R ty ty) : ∀ e : Expr, e.Retyped R e
  | literal value span => .literal value span
  | .var name => .var name
  | binary lhs op rhs span => .binary op span (retyped_refl hR lhs) (retyped_refl hR rhs)
  | unary op operand span => .unary op span (retyped_refl hR operand)
  | step op before target span => .step op before span (retyped_refl hR target)
  | ternary c a b span => .ternary span (retyped_refl hR c) (retyped_refl hR a) (retyped_refl hR b)
  | new ty args span => .new span (hR ty) (allRetyped_refl hR args)
  | field receiver name span => .field name span (retyped_refl hR receiver)
  | call receiver method args span =>
    .call method span (retyped_refl hR receiver) (allRetyped_refl hR args)
  | cast ty e span => .cast span (hR ty) (retyped_refl hR e)
  | instanceOf e ty span => .instanceOf span (hR ty) (retyped_refl hR e)
  | group e span => .group span (retyped_refl hR e)

theorem allRetyped_refl (hR : ∀ ty, R ty ty) : ∀ es : List Expr, AllRetyped R es es
  | [] => .nil
  | e :: es => .cons (retyped_refl hR e) (allRetyped_refl hR es)

end

theorem retypedOption_refl (hR : ∀ ty, R ty ty) : ∀ e : Option Expr, Option.Rel (Retyped R) e e
  | none => .none
  | some e => .some (retyped_refl hR e)

end Expr

/-! ## Statements -/

mutual

/-- Two statements that differ only in their types, which are related. -/
inductive Stmt.Retyped (R : TypeExpr → TypeExpr → Prop) : Stmt → Stmt → Prop
  | localVariable {ty ty' : TypeExpr} {v v' : Option Expr} (name : Identifier) (span : Span) :
      R ty ty' → Option.Rel (Expr.Retyped R) v v' →
      Retyped R (.localVariable ty name v span) (.localVariable ty' name v' span)
  | assign {e e' : Expr} (target : Identifier) (op : AssignOp) (span : Span) :
      e.Retyped R e' → Retyped R (.assign target op e span) (.assign target op e' span)
  | fieldAssign {r r' e e' : Expr} (field : Identifier) (op : AssignOp) (span : Span) :
      r.Retyped R r' → e.Retyped R e' →
      Retyped R (.fieldAssign r field op e span) (.fieldAssign r' field op e' span)
  | expression {e e' : Expr} (span : Span) :
      e.Retyped R e' → Retyped R (.expression e span) (.expression e' span)
  | ifThen {c c' : Expr} {a a' : List Stmt} (span : Span) :
      c.Retyped R c' → AllRetyped R a a' →
      Retyped R (.ifElse c a none span) (.ifElse c' a' none span)
  | ifElse {c c' : Expr} {a a' b b' : List Stmt} (span : Span) :
      c.Retyped R c' → AllRetyped R a a' → AllRetyped R b b' →
      Retyped R (.ifElse c a (some b) span) (.ifElse c' a' (some b') span)
  | whileLoop {c c' : Expr} {b b' : List Stmt} (span : Span) :
      c.Retyped R c' → AllRetyped R b b' →
      Retyped R (.whileLoop c b span) (.whileLoop c' b' span)
  | forLoop {i i' : Stmt} {c c' : Expr} {u u' : Stmt} {b b' : List Stmt} (span : Span) :
      Retyped R i i' → c.Retyped R c' → Retyped R u u' → AllRetyped R b b' →
      Retyped R (.forLoop i c u b span) (.forLoop i' c' u' b' span)
  | returns {v v' : Option Expr} (span : Span) :
      Option.Rel (Expr.Retyped R) v v' → Retyped R (.returns v span) (.returns v' span)
  | block {b b' : List Stmt} (span : Span) :
      AllRetyped R b b' → Retyped R (.block b span) (.block b' span)

/-- Two lists of such statements. -/
inductive Stmt.AllRetyped (R : TypeExpr → TypeExpr → Prop) : List Stmt → List Stmt → Prop
  | nil : AllRetyped R [] []
  | cons {s s' : Stmt} {ss ss' : List Stmt} :
      Retyped R s s' → AllRetyped R ss ss' → AllRetyped R (s :: ss) (s' :: ss')

end

namespace Stmt

variable {R : TypeExpr → TypeExpr → Prop} {t : ClassTable F} {g : List String}

theorem Retyped.span_eq {s s' : Stmt} (h : s.Retyped R s') : s'.span = s.span := by
  cases h <;> rfl

mutual

/-- Expansion changes the types of a statement only. -/
theorem retyped_of_expand (hR : ∀ a b : TypeExpr, a.expand t g = .ok b → R a b) :
    ∀ {s s' : Stmt}, s.expand t g = .ok s' → s.Retyped R s'
  | localVariable ty name value span, s', h => by
    rw [expand] at h
    obtain ⟨ty', hty, h⟩ := ok_of_bind h
    obtain ⟨value', hv, h⟩ := ok_of_bind h
    cases h
    exact .localVariable name span (hR _ _ hty) (Expr.retyped_of_expandOption hR hv)
  | assign target op value span, s', h => by
    rw [expand] at h
    obtain ⟨value', hv, h⟩ := ok_of_bind h
    cases h
    exact .assign target op span (Expr.retyped_of_expand hR hv)
  | fieldAssign receiver field op value span, s', h => by
    rw [expand] at h
    obtain ⟨receiver', hr, h⟩ := ok_of_bind h
    obtain ⟨value', hv, h⟩ := ok_of_bind h
    cases h
    exact .fieldAssign field op span (Expr.retyped_of_expand hR hr) (Expr.retyped_of_expand hR hv)
  | expression e span, s', h => by
    rw [expand] at h
    obtain ⟨e', he, h⟩ := ok_of_bind h
    cases h
    exact .expression span (Expr.retyped_of_expand hR he)
  | ifElse c a none span, s', h => by
    rw [expand] at h
    obtain ⟨c', hc, h⟩ := ok_of_bind h
    obtain ⟨a', ha, h⟩ := ok_of_bind h
    cases h
    exact .ifThen span (Expr.retyped_of_expand hR hc) (allRetyped_of_expandAll hR ha)
  | ifElse c a (some b) span, s', h => by
    rw [expand] at h
    obtain ⟨c', hc, h⟩ := ok_of_bind h
    obtain ⟨a', ha, h⟩ := ok_of_bind h
    obtain ⟨b', hb, h⟩ := ok_of_bind h
    cases h
    exact .ifElse span (Expr.retyped_of_expand hR hc) (allRetyped_of_expandAll hR ha)
      (allRetyped_of_expandAll hR hb)
  | whileLoop c body span, s', h => by
    rw [expand] at h
    obtain ⟨c', hc, h⟩ := ok_of_bind h
    obtain ⟨body', hb, h⟩ := ok_of_bind h
    cases h
    exact .whileLoop span (Expr.retyped_of_expand hR hc) (allRetyped_of_expandAll hR hb)
  | forLoop init c update body span, s', h => by
    rw [expand] at h
    obtain ⟨init', hi, h⟩ := ok_of_bind h
    obtain ⟨c', hc, h⟩ := ok_of_bind h
    obtain ⟨update', hu, h⟩ := ok_of_bind h
    obtain ⟨body', hb, h⟩ := ok_of_bind h
    cases h
    exact .forLoop span (retyped_of_expand hR hi) (Expr.retyped_of_expand hR hc) (retyped_of_expand hR hu)
      (allRetyped_of_expandAll hR hb)
  | returns value span, s', h => by
    rw [expand] at h
    obtain ⟨value', hv, h⟩ := ok_of_bind h
    cases h
    exact .returns span (Expr.retyped_of_expandOption hR hv)
  | block body span, s', h => by
    rw [expand] at h
    obtain ⟨body', hb, h⟩ := ok_of_bind h
    cases h
    exact .block span (allRetyped_of_expandAll hR hb)

theorem allRetyped_of_expandAll (hR : ∀ a b : TypeExpr, a.expand t g = .ok b → R a b) :
    ∀ {ss ss' : List Stmt}, expandAll t g ss = .ok ss' → AllRetyped R ss ss'
  | [], ss', h => by
    rw [expandAll] at h
    cases h
    exact .nil
  | s :: rest, ss', h => by
    rw [expandAll] at h
    obtain ⟨s', hs, h⟩ := ok_of_bind h
    obtain ⟨rest', hrest, h⟩ := ok_of_bind h
    cases h
    exact .cons (retyped_of_expand hR hs) (allRetyped_of_expandAll hR hrest)

end

mutual

/-- A statement and itself, if types are related to themselves. -/
theorem retyped_refl (hR : ∀ ty, R ty ty) : ∀ s : Stmt, s.Retyped R s
  | localVariable ty name value span =>
    .localVariable name span (hR ty) (Expr.retypedOption_refl hR value)
  | assign target op value span => .assign target op span (Expr.retyped_refl hR value)
  | fieldAssign receiver field op value span =>
    .fieldAssign field op span (Expr.retyped_refl hR receiver) (Expr.retyped_refl hR value)
  | expression e span => .expression span (Expr.retyped_refl hR e)
  | ifElse c a none span => .ifThen span (Expr.retyped_refl hR c) (allRetyped_refl hR a)
  | ifElse c a (some b) span =>
    .ifElse span (Expr.retyped_refl hR c) (allRetyped_refl hR a) (allRetyped_refl hR b)
  | whileLoop c body span => .whileLoop span (Expr.retyped_refl hR c) (allRetyped_refl hR body)
  | forLoop init c update body span =>
    .forLoop span (retyped_refl hR init) (Expr.retyped_refl hR c) (retyped_refl hR update)
      (allRetyped_refl hR body)
  | returns value span => .returns span (Expr.retypedOption_refl hR value)
  | block body span => .block span (allRetyped_refl hR body)

theorem allRetyped_refl (hR : ∀ ty, R ty ty) : ∀ ss : List Stmt, AllRetyped R ss ss
  | [] => .nil
  | s :: ss => .cons (retyped_refl hR s) (allRetyped_refl hR ss)

end

end Stmt

/-! ## Two bodies expanded -/

section Expansion

variable {R R' : TypeExpr → TypeExpr → Prop} {t : ClassTable F} {g g' : List String}

mutual

/-- Where corresponding types are expanded alike, so are expressions that differ in them only. -/
theorem Expr.Retyped.expand_concur
    (hR : ∀ {a b : TypeExpr}, R a b → Concur R' (a.expand t g) (b.expand t g')) :
    ∀ {e e' : Expr}, e.Retyped R e' → Concur (Expr.Retyped R') (e.expand t g) (e'.expand t g')
  | _, _, .literal value span => by
    rw [Expr.expand, Expr.expand]
    exact .ok (.literal value span)
  | _, _, .var name => by
    rw [Expr.expand, Expr.expand]
    exact .ok (.var name)
  | _, _, .binary op span hl hr => by
    rw [Expr.expand, Expr.expand]
    exact (hl.expand_concur hR).bind fun hl => (hr.expand_concur hR).bind fun hr =>
      .ok (.binary op span hl hr)
  | _, _, .unary op span h => by
    rw [Expr.expand, Expr.expand]
    exact (h.expand_concur hR).bind fun h => .ok (.unary op span h)
  | _, _, .step op before span h => by
    rw [Expr.expand, Expr.expand]
    exact (h.expand_concur hR).bind fun h => .ok (.step op before span h)
  | _, _, .ternary span hc ha hb => by
    rw [Expr.expand, Expr.expand]
    exact (hc.expand_concur hR).bind fun hc => (ha.expand_concur hR).bind fun ha =>
      (hb.expand_concur hR).bind fun hb => .ok (.ternary span hc ha hb)
  | _, _, .new span hty hargs => by
    rw [Expr.expand, Expr.expand]
    exact (hR hty).bind fun hty => (hargs.expandAll_concur hR).bind fun hargs =>
      .ok (.new span hty hargs)
  | _, _, .field name span h => by
    rw [Expr.expand, Expr.expand]
    exact (h.expand_concur hR).bind fun h => .ok (.field name span h)
  | _, _, .call method span h hargs => by
    rw [Expr.expand, Expr.expand]
    exact (h.expand_concur hR).bind fun h => (hargs.expandAll_concur hR).bind fun hargs =>
      .ok (.call method span h hargs)
  | _, _, .cast span hty h => by
    rw [Expr.expand, Expr.expand]
    exact (hR hty).bind fun hty => (h.expand_concur hR).bind fun h => .ok (.cast span hty h)
  | _, _, .instanceOf span hty h => by
    rw [Expr.expand, Expr.expand]
    exact (hR hty).bind fun hty => (h.expand_concur hR).bind fun h => .ok (.instanceOf span hty h)
  | _, _, .group span h => by
    rw [Expr.expand, Expr.expand]
    exact (h.expand_concur hR).bind fun h => .ok (.group span h)

theorem Expr.AllRetyped.expandAll_concur
    (hR : ∀ {a b : TypeExpr}, R a b → Concur R' (a.expand t g) (b.expand t g')) :
    ∀ {es es' : List Expr}, Expr.AllRetyped R es es' →
      Concur (Expr.AllRetyped R') (Expr.expandAll t g es) (Expr.expandAll t g' es')
  | _, _, .nil => by
    rw [Expr.expandAll, Expr.expandAll]
    exact .ok .nil
  | _, _, .cons h hrest => by
    rw [Expr.expandAll, Expr.expandAll]
    exact (h.expand_concur hR).bind fun h => (hrest.expandAll_concur hR).bind fun hrest =>
      .ok (.cons h hrest)

end

theorem Expr.expandOption_concur
    (hR : ∀ {a b : TypeExpr}, R a b → Concur R' (a.expand t g) (b.expand t g'))
    {e e' : Option Expr} (h : Option.Rel (Expr.Retyped R) e e') :
    Concur (Option.Rel (Expr.Retyped R')) (Expr.expandOption t g e)
      (Expr.expandOption t g' e') := by
  cases h with
  | none => exact .ok .none
  | some h => exact (h.expand_concur hR).map .some

mutual

/-- Where corresponding types are expanded alike, so are statements that differ in them only. -/
theorem Stmt.Retyped.expand_concur
    (hR : ∀ {a b : TypeExpr}, R a b → Concur R' (a.expand t g) (b.expand t g')) :
    ∀ {s s' : Stmt}, s.Retyped R s' → Concur (Stmt.Retyped R') (s.expand t g) (s'.expand t g')
  | _, _, .localVariable name span hty hv => by
    rw [Stmt.expand, Stmt.expand]
    exact (hR hty).bind fun hty => (Expr.expandOption_concur hR hv).bind fun hv =>
      .ok (.localVariable name span hty hv)
  | _, _, .assign target op span h => by
    rw [Stmt.expand, Stmt.expand]
    exact (h.expand_concur hR).bind fun h => .ok (.assign target op span h)
  | _, _, .fieldAssign name op span hr h => by
    rw [Stmt.expand, Stmt.expand]
    exact (hr.expand_concur hR).bind fun hr => (h.expand_concur hR).bind fun h =>
      .ok (.fieldAssign name op span hr h)
  | _, _, .expression span h => by
    rw [Stmt.expand, Stmt.expand]
    exact (h.expand_concur hR).bind fun h => .ok (.expression span h)
  | _, _, .ifThen span hc ha => by
    rw [Stmt.expand, Stmt.expand]
    exact (hc.expand_concur hR).bind fun hc => (ha.expandAll_concur hR).bind fun ha =>
      .ok (.ifThen span hc ha)
  | _, _, .ifElse span hc ha hb => by
    rw [Stmt.expand, Stmt.expand]
    exact (hc.expand_concur hR).bind fun hc => (ha.expandAll_concur hR).bind fun ha =>
      (hb.expandAll_concur hR).bind fun hb => .ok (.ifElse span hc ha hb)
  | _, _, .whileLoop span hc hb => by
    rw [Stmt.expand, Stmt.expand]
    exact (hc.expand_concur hR).bind fun hc => (hb.expandAll_concur hR).bind fun hb =>
      .ok (.whileLoop span hc hb)
  | _, _, .forLoop span hi hc hu hb => by
    rw [Stmt.expand, Stmt.expand]
    exact (hi.expand_concur hR).bind fun hi => (hc.expand_concur hR).bind fun hc =>
      (hu.expand_concur hR).bind fun hu => (hb.expandAll_concur hR).bind fun hb =>
        .ok (.forLoop span hi hc hu hb)
  | _, _, .returns span hv => by
    rw [Stmt.expand, Stmt.expand]
    exact (Expr.expandOption_concur hR hv).bind fun hv => .ok (.returns span hv)
  | _, _, .block span hb => by
    rw [Stmt.expand, Stmt.expand]
    exact (hb.expandAll_concur hR).bind fun hb => .ok (.block span hb)

theorem Stmt.AllRetyped.expandAll_concur
    (hR : ∀ {a b : TypeExpr}, R a b → Concur R' (a.expand t g) (b.expand t g')) :
    ∀ {ss ss' : List Stmt}, Stmt.AllRetyped R ss ss' →
      Concur (Stmt.AllRetyped R') (Stmt.expandAll t g ss) (Stmt.expandAll t g' ss')
  | _, _, .nil => by
    rw [Stmt.expandAll, Stmt.expandAll]
    exact .ok .nil
  | _, _, .cons h hrest => by
    rw [Stmt.expandAll, Stmt.expandAll]
    exact (h.expand_concur hR).bind fun h => (hrest.expandAll_concur hR).bind fun hrest =>
      .ok (.cons h hrest)

end

end Expansion

/-! ## Two bodies regrouped -/

section Regrouping

variable {R : TypeExpr → TypeExpr → Prop}

namespace Chain

/-- Two links with the same operator, their operands corresponding. -/
def LinkRetyped (R : TypeExpr → TypeExpr → Prop) (l l' : Link) : Prop :=
  l'.op = l.op ∧ l'.span = l.span ∧ l.operand.Retyped R l'.operand

/-- Two operators that wait with corresponding operands. -/
def PendingRetyped (R : TypeExpr → TypeExpr → Prop) (p p' : Pending) : Prop :=
  p'.op = p.op ∧ p'.span = p.span ∧ p.lhs.Retyped R p'.lhs

/-- Two chains with the same operators and corresponding operands. -/
structure Retyped (R : TypeExpr → TypeExpr → Prop) (c c' : Chain) : Prop where
  first : c.first.Retyped R c'.first
  links : List.Forall₂ (LinkRetyped R) c.links c'.links

theorem retyped_single {e e' : Expr} (h : e.Retyped R e') : (single e).Retyped R (single e') :=
  ⟨h, .nil⟩

theorem Retyped.join {l l' r r' : Chain} (hl : l.Retyped R l') (op : BinaryOp) (span : Span)
    (hr : r.Retyped R r') : (l.join op span r).Retyped R (l'.join op span r') :=
  ⟨hl.first, List.rel_append hl.links (.cons ⟨rfl, rfl, hr.first⟩ hr.links)⟩

/-- Pending operators that bind tightly enough are closed over related operands alike. -/
theorem reduce_retyped (precedence : Nat) {ps ps' : List Pending} {e e' : Expr}
    (hps : List.Forall₂ (PendingRetyped R) ps ps') (h : e.Retyped R e') :
    List.Forall₂ (PendingRetyped R) (reduce precedence ps e).1 (reduce precedence ps' e').1 ∧
      (reduce precedence ps e).2.Retyped R (reduce precedence ps' e').2 := by
  induction hps generalizing e e' with
  | nil => exact ⟨.nil, h⟩
  | @cons p p' rest rest' hp hrest ih =>
    obtain ⟨hop, hspan, hlhs⟩ := hp
    rw [reduce, reduce, hop, hspan]
    split
    · exact ih (.binary p.op p.span hlhs h)
    · exact ⟨.cons ⟨hop, hspan, hlhs⟩ hrest, h⟩

theorem finish_retyped {ps ps' : List Pending} {e e' : Expr}
    (hps : List.Forall₂ (PendingRetyped R) ps ps') (h : e.Retyped R e') :
    (finish ps e).Retyped R (finish ps' e') := by
  induction hps generalizing e e' with
  | nil => exact h
  | @cons p p' rest rest' hp _ ih =>
    obtain ⟨hop, hspan, hlhs⟩ := hp
    rw [finish, finish, hop, hspan]
    exact ih (.binary p.op p.span hlhs h)

/-- Reading the links of two related chains closes the same operators. -/
theorem shift_retyped {ls ls' : List Link} (hls : List.Forall₂ (LinkRetyped R) ls ls') :
    ∀ {ps ps' : List Pending} {e e' : Expr}, List.Forall₂ (PendingRetyped R) ps ps' →
      e.Retyped R e' → (shift ps e ls).Retyped R (shift ps' e' ls') := by
  induction hls with
  | nil => exact finish_retyped
  | @cons l l' rest rest' hl _ ih =>
    intro ps ps' e e' hps h
    obtain ⟨hop, hspan, hoperand⟩ := hl
    obtain ⟨hpending, hlhs⟩ := reduce_retyped l.op.precedence hps h
    rw [shift, shift, hop, hspan]
    exact ih (.cons ⟨rfl, rfl, hlhs⟩ hpending) hoperand

theorem Retyped.rebuild {c c' : Chain} (h : c.Retyped R c') : c.rebuild.Retyped R c'.rebuild :=
  shift_retyped h.links .nil h.first

end Chain

mutual

/-- Related expressions are chains of related operands under the same operators. -/
theorem Expr.Retyped.chain : ∀ {e e' : Expr}, e.Retyped R e' → e.chain.Retyped R e'.chain
  | _, _, .literal value span => by
    rw [Expr.chain]
    exact Chain.retyped_single (.literal value span)
  | _, _, .var name => by
    rw [Expr.chain]
    exact Chain.retyped_single (.var name)
  | _, _, .binary op span hl hr => by
    rw [Expr.chain, Expr.chain]
    exact hl.chain.join op span hr.chain
  | _, _, .unary op span h => by
    rw [Expr.chain, Expr.chain]
    exact Chain.retyped_single (.unary op span h.chain.rebuild)
  | _, _, .step op before span h => by
    rw [Expr.chain, Expr.chain]
    exact Chain.retyped_single (.step op before span h.chain.rebuild)
  | _, _, .ternary span hc ha hb => by
    rw [Expr.chain, Expr.chain]
    exact Chain.retyped_single (.ternary span hc.chain.rebuild ha.chain.rebuild hb.chain.rebuild)
  | _, _, .new span hty hargs => by
    rw [Expr.chain, Expr.chain]
    exact Chain.retyped_single (.new span hty hargs.regroupAll)
  | _, _, .field name span h => by
    rw [Expr.chain, Expr.chain]
    exact Chain.retyped_single (.field name span h.chain.rebuild)
  | _, _, .call method span h hargs => by
    rw [Expr.chain, Expr.chain]
    exact Chain.retyped_single (.call method span h.chain.rebuild hargs.regroupAll)
  | _, _, .cast span hty h => by
    rw [Expr.chain, Expr.chain]
    exact Chain.retyped_single (.cast span hty h.chain.rebuild)
  | _, _, .instanceOf span hty h => by
    rw [Expr.chain, Expr.chain]
    exact Chain.retyped_single (.instanceOf span hty h.chain.rebuild)
  | _, _, .group span h => by
    rw [Expr.chain, Expr.chain]
    exact Chain.retyped_single (.group span h.chain.rebuild)

theorem Expr.AllRetyped.regroupAll : ∀ {es es' : List Expr}, Expr.AllRetyped R es es' →
    Expr.AllRetyped R (Expr.regroupAll es) (Expr.regroupAll es')
  | _, _, .nil => by
    rw [Expr.regroupAll]
    exact .nil
  | _, _, .cons h hrest => by
    rw [Expr.regroupAll, Expr.regroupAll]
    exact .cons h.chain.rebuild hrest.regroupAll

end

/-- Expressions that differ in types only are regrouped alike. -/
theorem Expr.Retyped.regroup {e e' : Expr} (h : e.Retyped R e') : e.regroup.Retyped R e'.regroup :=
  h.chain.rebuild

theorem Expr.regroup_related {e e' : Option Expr} (h : Option.Rel (Expr.Retyped R) e e') :
    Option.Rel (Expr.Retyped R) (e.map Expr.regroup) (e'.map Expr.regroup) := by
  cases h with
  | none => exact .none
  | some h => exact .some h.regroup

mutual

/-- Statements that differ in types only are regrouped alike. -/
theorem Stmt.Retyped.regroup : ∀ {s s' : Stmt}, s.Retyped R s' → s.regroup.Retyped R s'.regroup
  | _, _, .localVariable name span hty hv => by
    rw [Stmt.regroup, Stmt.regroup]
    exact .localVariable name span hty (Expr.regroup_related hv)
  | _, _, .assign target op span h => by
    rw [Stmt.regroup, Stmt.regroup]
    exact .assign target op span h.regroup
  | _, _, .fieldAssign name op span hr h => by
    rw [Stmt.regroup, Stmt.regroup]
    exact .fieldAssign name op span hr.regroup h.regroup
  | _, _, .expression span h => by
    rw [Stmt.regroup, Stmt.regroup]
    exact .expression span h.regroup
  | _, _, .ifThen span hc ha => by
    rw [Stmt.regroup, Stmt.regroup]
    exact .ifThen span hc.regroup ha.regroupAll
  | _, _, .ifElse span hc ha hb => by
    rw [Stmt.regroup, Stmt.regroup]
    exact .ifElse span hc.regroup ha.regroupAll hb.regroupAll
  | _, _, .whileLoop span hc hb => by
    rw [Stmt.regroup, Stmt.regroup]
    exact .whileLoop span hc.regroup hb.regroupAll
  | _, _, .forLoop span hi hc hu hb => by
    rw [Stmt.regroup, Stmt.regroup]
    exact .forLoop span hi.regroup hc.regroup hu.regroup hb.regroupAll
  | _, _, .returns span hv => by
    rw [Stmt.regroup, Stmt.regroup]
    exact .returns span (Expr.regroup_related hv)
  | _, _, .block span hb => by
    rw [Stmt.regroup, Stmt.regroup]
    exact .block span hb.regroupAll

theorem Stmt.AllRetyped.regroupAll : ∀ {ss ss' : List Stmt}, Stmt.AllRetyped R ss ss' →
    Stmt.AllRetyped R (Stmt.regroupAll ss) (Stmt.regroupAll ss')
  | _, _, .nil => by
    rw [Stmt.regroupAll]
    exact .nil
  | _, _, .cons h hrest => by
    rw [Stmt.regroupAll, Stmt.regroupAll]
    exact .cons h.regroup hrest.regroupAll

end

end Regrouping

end Middleweight
