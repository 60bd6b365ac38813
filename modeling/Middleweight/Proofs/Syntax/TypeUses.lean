import Middleweight.Analysis.Expand
import Middleweight.Proofs.Analysis.Regroup
import Middleweight.Proofs.Basic

/-!
# The types written in a body

A body writes types where it declares a local, constructs an object, casts or tests. `EachType` says
something of all of them, by their use. Expansion rewrites each of these types in its place, and
regrouping moves them without changing any.

* `Expr.eachType_expand`, `Stmt.eachType_expand` : what expansion makes of each type
* `Expr.expand_of_eachType`, `Stmt.expand_of_eachType` : a body whose types stay stays itself
* `Expr.eachType_regroup`, `Stmt.eachType_regroup` : regrouping keeps the types
-/

namespace Middleweight

variable {F : Type}

/-- What a type is written for. -/
inductive TypeUse where
  | declaration | construction | cast | test
deriving DecidableEq

namespace Expr

mutual

/-- What holds of each type written in an expression. -/
def EachType (P : TypeUse → TypeExpr → Prop) : Expr → Prop
  | literal _ _ => True
  | var _ => True
  | binary lhs _ rhs _ => lhs.EachType P ∧ rhs.EachType P
  | unary _ e _ => e.EachType P
  | step _ _ e _ => e.EachType P
  | ternary c a b _ => c.EachType P ∧ a.EachType P ∧ b.EachType P
  | new ty args _ => P .construction ty ∧ EachTypeIn P args
  | field e _ _ => e.EachType P
  | call e _ args _ => e.EachType P ∧ EachTypeIn P args
  | cast ty e _ => P .cast ty ∧ e.EachType P
  | instanceOf e ty _ => P .test ty ∧ e.EachType P
  | group e _ => e.EachType P

def EachTypeIn (P : TypeUse → TypeExpr → Prop) : List Expr → Prop
  | [] => True
  | e :: rest => e.EachType P ∧ EachTypeIn P rest

end

mutual

/-- What holds of all types holds of those in an expression. -/
theorem eachType_of_forall {P : TypeUse → TypeExpr → Prop} (h : ∀ use ty, P use ty) :
    ∀ e : Expr, e.EachType P
  | literal _ _ => by simp [EachType]
  | var _ => by simp [EachType]
  | binary a _ b _ => by rw [EachType]; exact ⟨eachType_of_forall h a, eachType_of_forall h b⟩
  | unary _ e _ => by rw [EachType]; exact eachType_of_forall h e
  | step _ _ e _ => by rw [EachType]; exact eachType_of_forall h e
  | ternary c a b _ => by
    rw [EachType]
    exact ⟨eachType_of_forall h c, eachType_of_forall h a, eachType_of_forall h b⟩
  | new ty args _ => by rw [EachType]; exact ⟨h _ ty, eachTypeIn_of_forall h args⟩
  | field e _ _ => by rw [EachType]; exact eachType_of_forall h e
  | call e _ args _ => by
    rw [EachType]
    exact ⟨eachType_of_forall h e, eachTypeIn_of_forall h args⟩
  | cast ty e _ => by rw [EachType]; exact ⟨h _ ty, eachType_of_forall h e⟩
  | instanceOf e ty _ => by rw [EachType]; exact ⟨h _ ty, eachType_of_forall h e⟩
  | group e _ => by rw [EachType]; exact eachType_of_forall h e

theorem eachTypeIn_of_forall {P : TypeUse → TypeExpr → Prop} (h : ∀ use ty, P use ty) :
    ∀ es : List Expr, EachTypeIn P es
  | [] => by simp [EachTypeIn]
  | e :: rest => by
    rw [EachTypeIn]
    exact ⟨eachType_of_forall h e, eachTypeIn_of_forall h rest⟩

end

mutual

/-- Whether every type of an expression is in order can be decided where it can of each type. -/
instance decidableEachType {P : TypeUse → TypeExpr → Prop} [∀ use ty, Decidable (P use ty)] :
    (e : Expr) → Decidable (e.EachType P)
  | literal _ _ => .isTrue trivial
  | var _ => .isTrue trivial
  | binary lhs _ rhs _ => @instDecidableAnd _ _ (decidableEachType lhs) (decidableEachType rhs)
  | unary _ e _ => decidableEachType e
  | step _ _ e _ => decidableEachType e
  | ternary c a b _ =>
    @instDecidableAnd _ _ (decidableEachType c)
      (@instDecidableAnd _ _ (decidableEachType a) (decidableEachType b))
  | new ty args _ =>
    @instDecidableAnd _ _ (inferInstanceAs (Decidable (P .construction ty)))
      (decidableEachTypeIn args)
  | field e _ _ => decidableEachType e
  | call e _ args _ => @instDecidableAnd _ _ (decidableEachType e) (decidableEachTypeIn args)
  | cast ty e _ =>
    @instDecidableAnd _ _ (inferInstanceAs (Decidable (P .cast ty))) (decidableEachType e)
  | instanceOf e ty _ =>
    @instDecidableAnd _ _ (inferInstanceAs (Decidable (P .test ty))) (decidableEachType e)
  | group e _ => decidableEachType e

instance decidableEachTypeIn {P : TypeUse → TypeExpr → Prop} [∀ use ty, Decidable (P use ty)] :
    (es : List Expr) → Decidable (EachTypeIn P es)
  | [] => .isTrue trivial
  | e :: rest => @instDecidableAnd _ _ (decidableEachType e) (decidableEachTypeIn rest)

end

/-! ## Regrouping -/

/-- Putting a chain of operands back together writes no type of its own. -/
theorem rebuild_eachType {P : TypeUse → TypeExpr → Prop} {c : Chain}
    (h : c.All (EachType P)) : c.rebuild.EachType P := by
  refine Chain.rebuild_keeps (fun a op b s ha hb => ?_) h
  rw [EachType]
  exact ⟨ha, hb⟩

mutual

/-- Taking an expression apart into its operands keeps the types they write. -/
theorem chain_eachType {P : TypeUse → TypeExpr → Prop} :
    ∀ {e : Expr}, e.EachType P → e.chain.All (EachType P)
  | literal _ _, h => by rw [chain]; exact Chain.all_single h
  | var _, h => by rw [chain]; exact Chain.all_single h
  | binary lhs op rhs span, h => by
    rw [EachType] at h
    rw [chain]
    exact Chain.all_join (chain_eachType h.1) (chain_eachType h.2)
  | unary op e span, h => by
    rw [EachType] at h
    rw [chain]
    refine Chain.all_single ?_
    rw [EachType]
    exact rebuild_eachType (chain_eachType h)
  | step op before e span, h => by
    rw [EachType] at h
    rw [chain]
    refine Chain.all_single ?_
    rw [EachType]
    exact rebuild_eachType (chain_eachType h)
  | ternary c a b span, h => by
    rw [EachType] at h
    rw [chain]
    refine Chain.all_single ?_
    rw [EachType]
    exact ⟨rebuild_eachType (chain_eachType h.1), rebuild_eachType (chain_eachType h.2.1),
      rebuild_eachType (chain_eachType h.2.2)⟩
  | new ty args span, h => by
    rw [EachType] at h
    rw [chain]
    refine Chain.all_single ?_
    rw [EachType]
    exact ⟨h.1, regroupAll_eachType h.2⟩
  | field e name span, h => by
    rw [EachType] at h
    rw [chain]
    refine Chain.all_single ?_
    rw [EachType]
    exact rebuild_eachType (chain_eachType h)
  | call e method args span, h => by
    rw [EachType] at h
    rw [chain]
    refine Chain.all_single ?_
    rw [EachType]
    exact ⟨rebuild_eachType (chain_eachType h.1), regroupAll_eachType h.2⟩
  | cast ty e span, h => by
    rw [EachType] at h
    rw [chain]
    refine Chain.all_single ?_
    rw [EachType]
    exact ⟨h.1, rebuild_eachType (chain_eachType h.2)⟩
  | instanceOf e ty span, h => by
    rw [EachType] at h
    rw [chain]
    refine Chain.all_single ?_
    rw [EachType]
    exact ⟨h.1, rebuild_eachType (chain_eachType h.2)⟩
  | group e span, h => by
    rw [EachType] at h
    rw [chain]
    refine Chain.all_single ?_
    rw [EachType]
    exact rebuild_eachType (chain_eachType h)

theorem regroupAll_eachType {P : TypeUse → TypeExpr → Prop} :
    ∀ {es : List Expr}, EachTypeIn P es → EachTypeIn P (regroupAll es)
  | [], h => by rw [regroupAll]; exact h
  | e :: rest, h => by
    rw [EachTypeIn] at h
    rw [regroupAll, EachTypeIn]
    exact ⟨rebuild_eachType (chain_eachType h.1), regroupAll_eachType h.2⟩

end

/-- Regrouping keeps the types of an expression. -/
theorem eachType_regroup {P : TypeUse → TypeExpr → Prop} {e : Expr} (h : e.EachType P) :
    e.regroup.EachType P :=
  rebuild_eachType (chain_eachType h)

/-! ## Expansion -/

section Expansion

variable {t : ClassTable F} {g : List String} {P Q : TypeUse → TypeExpr → Prop}

mutual

/-- Expansion replaces each type of an expression by its expansion. -/
theorem eachType_expand
    (hPQ : ∀ use ty ty', P use ty → ty.expand t g = .ok ty' → Q use ty') :
    ∀ {e e' : Expr}, e.EachType P → e.expand t g = .ok e' → e'.EachType Q
  | literal _ _, _, _, h => by
    rw [expand] at h
    cases h
    simp [EachType]
  | var _, _, _, h => by
    rw [expand] at h
    cases h
    simp [EachType]
  | binary lhs op rhs span, _, he, h => by
    rw [EachType] at he
    rw [expand] at h
    obtain ⟨lhs', hl, h⟩ := ok_of_bind h
    obtain ⟨rhs', hr, h⟩ := ok_of_bind h
    cases h
    rw [EachType]
    exact ⟨eachType_expand hPQ he.1 hl, eachType_expand hPQ he.2 hr⟩
  | unary op e span, _, he, h => by
    rw [EachType] at he
    rw [expand] at h
    obtain ⟨e', h', h⟩ := ok_of_bind h
    cases h
    rw [EachType]
    exact eachType_expand hPQ he h'
  | step op before e span, _, he, h => by
    rw [EachType] at he
    rw [expand] at h
    obtain ⟨e', h', h⟩ := ok_of_bind h
    cases h
    rw [EachType]
    exact eachType_expand hPQ he h'
  | ternary c a b span, _, he, h => by
    rw [EachType] at he
    rw [expand] at h
    obtain ⟨c', hc, h⟩ := ok_of_bind h
    obtain ⟨a', ha, h⟩ := ok_of_bind h
    obtain ⟨b', hb, h⟩ := ok_of_bind h
    cases h
    rw [EachType]
    exact ⟨eachType_expand hPQ he.1 hc, eachType_expand hPQ he.2.1 ha,
      eachType_expand hPQ he.2.2 hb⟩
  | new ty args span, _, he, h => by
    rw [EachType] at he
    rw [expand] at h
    obtain ⟨ty', hty, h⟩ := ok_of_bind h
    obtain ⟨args', hargs, h⟩ := ok_of_bind h
    cases h
    rw [EachType]
    exact ⟨hPQ _ _ _ he.1 hty, eachTypeIn_expandAll hPQ he.2 hargs⟩
  | field e name span, _, he, h => by
    rw [EachType] at he
    rw [expand] at h
    obtain ⟨e', h', h⟩ := ok_of_bind h
    cases h
    rw [EachType]
    exact eachType_expand hPQ he h'
  | call e method args span, _, he, h => by
    rw [EachType] at he
    rw [expand] at h
    obtain ⟨e', h', h⟩ := ok_of_bind h
    obtain ⟨args', hargs, h⟩ := ok_of_bind h
    cases h
    rw [EachType]
    exact ⟨eachType_expand hPQ he.1 h', eachTypeIn_expandAll hPQ he.2 hargs⟩
  | cast ty e span, _, he, h => by
    rw [EachType] at he
    rw [expand] at h
    obtain ⟨ty', hty, h⟩ := ok_of_bind h
    obtain ⟨e', h', h⟩ := ok_of_bind h
    cases h
    rw [EachType]
    exact ⟨hPQ _ _ _ he.1 hty, eachType_expand hPQ he.2 h'⟩
  | instanceOf e ty span, _, he, h => by
    rw [EachType] at he
    rw [expand] at h
    obtain ⟨ty', hty, h⟩ := ok_of_bind h
    obtain ⟨e', h', h⟩ := ok_of_bind h
    cases h
    rw [EachType]
    exact ⟨hPQ _ _ _ he.1 hty, eachType_expand hPQ he.2 h'⟩
  | group e span, _, he, h => by
    rw [EachType] at he
    rw [expand] at h
    obtain ⟨e', h', h⟩ := ok_of_bind h
    cases h
    rw [EachType]
    exact eachType_expand hPQ he h'

theorem eachTypeIn_expandAll
    (hPQ : ∀ use ty ty', P use ty → ty.expand t g = .ok ty' → Q use ty') :
    ∀ {es es' : List Expr}, EachTypeIn P es → expandAll t g es = .ok es' → EachTypeIn Q es'
  | [], _, _, h => by
    rw [expandAll] at h
    cases h
    simp [EachTypeIn]
  | e :: rest, _, he, h => by
    rw [EachTypeIn] at he
    rw [expandAll] at h
    obtain ⟨e', h', h⟩ := ok_of_bind h
    obtain ⟨rest', hrest, h⟩ := ok_of_bind h
    cases h
    rw [EachTypeIn]
    exact ⟨eachType_expand hPQ he.1 h', eachTypeIn_expandAll hPQ he.2 hrest⟩

end

mutual

/-- An expression whose types stay under expansion stays itself. -/
theorem expand_of_eachType (hP : ∀ use ty, P use ty → ty.expand t g = .ok ty) :
    ∀ {e : Expr}, e.EachType P → e.expand t g = .ok e
  | literal _ _, _ => by rw [expand]
  | var _, _ => by rw [expand]
  | binary lhs op rhs span, he => by
    rw [EachType] at he
    rw [expand, expand_of_eachType hP he.1, expand_of_eachType hP he.2]
    rfl
  | unary op e span, he => by
    rw [EachType] at he
    rw [expand, expand_of_eachType hP he]
    rfl
  | step op before e span, he => by
    rw [EachType] at he
    rw [expand, expand_of_eachType hP he]
    rfl
  | ternary c a b span, he => by
    rw [EachType] at he
    rw [expand, expand_of_eachType hP he.1, expand_of_eachType hP he.2.1,
      expand_of_eachType hP he.2.2]
    rfl
  | new ty args span, he => by
    rw [EachType] at he
    rw [expand, hP _ _ he.1, expandAll_of_eachTypeIn hP he.2]
    rfl
  | field e name span, he => by
    rw [EachType] at he
    rw [expand, expand_of_eachType hP he]
    rfl
  | call e method args span, he => by
    rw [EachType] at he
    rw [expand, expand_of_eachType hP he.1, expandAll_of_eachTypeIn hP he.2]
    rfl
  | cast ty e span, he => by
    rw [EachType] at he
    rw [expand, hP _ _ he.1, expand_of_eachType hP he.2]
    rfl
  | instanceOf e ty span, he => by
    rw [EachType] at he
    rw [expand, hP _ _ he.1, expand_of_eachType hP he.2]
    rfl
  | group e span, he => by
    rw [EachType] at he
    rw [expand, expand_of_eachType hP he]
    rfl

theorem expandAll_of_eachTypeIn (hP : ∀ use ty, P use ty → ty.expand t g = .ok ty) :
    ∀ {es : List Expr}, EachTypeIn P es → expandAll t g es = .ok es
  | [], _ => by rw [expandAll]
  | e :: rest, he => by
    rw [EachTypeIn] at he
    rw [expandAll, expand_of_eachType hP he.1, expandAll_of_eachTypeIn hP he.2]
    rfl

end

end Expansion

end Expr

namespace Stmt

mutual

/-- What holds of each type written in a statement. -/
def EachType (P : TypeUse → TypeExpr → Prop) : Stmt → Prop
  | localVariable ty _ value _ => P .declaration ty ∧ ∀ e ∈ value, e.EachType P
  | assign _ _ e _ => e.EachType P
  | fieldAssign receiver _ _ e _ => receiver.EachType P ∧ e.EachType P
  | expression e _ => e.EachType P
  | ifElse c thenBranch none _ => c.EachType P ∧ EachTypeIn P thenBranch
  | ifElse c thenBranch (some elseBranch) _ =>
    c.EachType P ∧ EachTypeIn P thenBranch ∧ EachTypeIn P elseBranch
  | whileLoop c body _ => c.EachType P ∧ EachTypeIn P body
  | forLoop init c update body _ =>
    init.EachType P ∧ c.EachType P ∧ update.EachType P ∧ EachTypeIn P body
  | returns value _ => ∀ e ∈ value, e.EachType P
  | block body _ => EachTypeIn P body

def EachTypeIn (P : TypeUse → TypeExpr → Prop) : List Stmt → Prop
  | [] => True
  | s :: rest => s.EachType P ∧ EachTypeIn P rest

end

mutual

/-- Whether every type of a statement is in order can be decided where it can of each type. -/
instance decidableEachType {P : TypeUse → TypeExpr → Prop} [∀ use ty, Decidable (P use ty)] :
    (s : Stmt) → Decidable (s.EachType P)
  | localVariable ty _ value _ =>
    @instDecidableAnd _ _ (inferInstanceAs (Decidable (P .declaration ty)))
      (inferInstanceAs (Decidable (∀ e ∈ value, e.EachType P)))
  | assign _ _ e _ => Expr.decidableEachType e
  | fieldAssign receiver _ _ e _ =>
    @instDecidableAnd _ _ (Expr.decidableEachType receiver) (Expr.decidableEachType e)
  | expression e _ => Expr.decidableEachType e
  | ifElse c thenBranch none _ =>
    @instDecidableAnd _ _ (Expr.decidableEachType c) (decidableEachTypeIn thenBranch)
  | ifElse c thenBranch (some elseBranch) _ =>
    @instDecidableAnd _ _ (Expr.decidableEachType c)
      (@instDecidableAnd _ _ (decidableEachTypeIn thenBranch) (decidableEachTypeIn elseBranch))
  | whileLoop c body _ =>
    @instDecidableAnd _ _ (Expr.decidableEachType c) (decidableEachTypeIn body)
  | forLoop init c update body _ =>
    @instDecidableAnd _ _ (decidableEachType init)
      (@instDecidableAnd _ _ (Expr.decidableEachType c)
        (@instDecidableAnd _ _ (decidableEachType update) (decidableEachTypeIn body)))
  | returns value _ => inferInstanceAs (Decidable (∀ e ∈ value, e.EachType P))
  | block body _ => decidableEachTypeIn body

instance decidableEachTypeIn {P : TypeUse → TypeExpr → Prop} [∀ use ty, Decidable (P use ty)] :
    (ss : List Stmt) → Decidable (EachTypeIn P ss)
  | [] => .isTrue trivial
  | s :: rest => @instDecidableAnd _ _ (decidableEachType s) (decidableEachTypeIn rest)

end

mutual

/-- A condition on all types holds of those a statement writes. -/
theorem eachType_of_forall {P : TypeUse → TypeExpr → Prop} (h : ∀ use ty, P use ty) :
    ∀ s : Stmt, s.EachType P
  | localVariable ty _ value _ => by
    rw [EachType]
    exact ⟨h _ ty, fun e _ => Expr.eachType_of_forall h e⟩
  | assign _ _ e _ => by rw [EachType]; exact Expr.eachType_of_forall h e
  | fieldAssign r _ _ e _ => by
    rw [EachType]
    exact ⟨Expr.eachType_of_forall h r, Expr.eachType_of_forall h e⟩
  | expression e _ => by rw [EachType]; exact Expr.eachType_of_forall h e
  | ifElse c a none _ => by
    rw [EachType]
    exact ⟨Expr.eachType_of_forall h c, eachTypeIn_of_forall h a⟩
  | ifElse c a (some b) _ => by
    rw [EachType]
    exact ⟨Expr.eachType_of_forall h c, eachTypeIn_of_forall h a, eachTypeIn_of_forall h b⟩
  | whileLoop c body _ => by
    rw [EachType]
    exact ⟨Expr.eachType_of_forall h c, eachTypeIn_of_forall h body⟩
  | forLoop init c update body _ => by
    rw [EachType]
    exact ⟨eachType_of_forall h init, Expr.eachType_of_forall h c, eachType_of_forall h update,
      eachTypeIn_of_forall h body⟩
  | returns value _ => by rw [EachType]; exact fun e _ => Expr.eachType_of_forall h e
  | block body _ => by rw [EachType]; exact eachTypeIn_of_forall h body

theorem eachTypeIn_of_forall {P : TypeUse → TypeExpr → Prop} (h : ∀ use ty, P use ty) :
    ∀ ss : List Stmt, EachTypeIn P ss
  | [] => by simp [EachTypeIn]
  | s :: rest => by
    rw [EachTypeIn]
    exact ⟨eachType_of_forall h s, eachTypeIn_of_forall h rest⟩

end

theorem map_regroup_eachType {P : TypeUse → TypeExpr → Prop} {value : Option Expr}
    (h : ∀ e ∈ value, e.EachType P) : ∀ e ∈ value.map Expr.regroup, e.EachType P := by
  intro e he
  obtain ⟨e₀, he₀, rfl⟩ := Option.map_eq_some_iff.mp he
  exact Expr.eachType_regroup (h e₀ he₀)

mutual

/-- Regrouping keeps the types of a statement. -/
theorem eachType_regroup {P : TypeUse → TypeExpr → Prop} :
    ∀ {s : Stmt}, s.EachType P → s.regroup.EachType P
  | localVariable ty name value span, h => by
    rw [EachType] at h
    rw [regroup, EachType]
    exact ⟨h.1, map_regroup_eachType h.2⟩
  | assign target op e span, h => by
    rw [EachType] at h
    rw [regroup, EachType]
    exact Expr.eachType_regroup h
  | fieldAssign receiver field op e span, h => by
    rw [EachType] at h
    rw [regroup, EachType]
    exact ⟨Expr.eachType_regroup h.1, Expr.eachType_regroup h.2⟩
  | expression e span, h => by
    rw [EachType] at h
    rw [regroup, EachType]
    exact Expr.eachType_regroup h
  | ifElse c thenBranch none span, h => by
    rw [EachType] at h
    rw [regroup, EachType]
    exact ⟨Expr.eachType_regroup h.1, eachTypeIn_regroupAll h.2⟩
  | ifElse c thenBranch (some elseBranch) span, h => by
    rw [EachType] at h
    rw [regroup, EachType]
    exact ⟨Expr.eachType_regroup h.1, eachTypeIn_regroupAll h.2.1, eachTypeIn_regroupAll h.2.2⟩
  | whileLoop c body span, h => by
    rw [EachType] at h
    rw [regroup, EachType]
    exact ⟨Expr.eachType_regroup h.1, eachTypeIn_regroupAll h.2⟩
  | forLoop init c update body span, h => by
    rw [EachType] at h
    rw [regroup, EachType]
    exact ⟨eachType_regroup h.1, Expr.eachType_regroup h.2.1, eachType_regroup h.2.2.1,
      eachTypeIn_regroupAll h.2.2.2⟩
  | returns value span, h => by
    rw [EachType] at h
    rw [regroup, EachType]
    exact map_regroup_eachType h
  | block body span, h => by
    rw [EachType] at h
    rw [regroup, EachType]
    exact eachTypeIn_regroupAll h

theorem eachTypeIn_regroupAll {P : TypeUse → TypeExpr → Prop} :
    ∀ {ss : List Stmt}, EachTypeIn P ss → EachTypeIn P (regroupAll ss)
  | [], h => by rw [regroupAll]; exact h
  | s :: rest, h => by
    rw [EachTypeIn] at h
    rw [regroupAll, EachTypeIn]
    exact ⟨eachType_regroup h.1, eachTypeIn_regroupAll h.2⟩

end

section Expansion

variable {t : ClassTable F} {g : List String} {P Q : TypeUse → TypeExpr → Prop}

/-- The value of a declaration or a `return` is expanded if there is one. -/
theorem eachType_expandOption
    (hPQ : ∀ use ty ty', P use ty → ty.expand t g = .ok ty' → Q use ty')
    {value value' : Option Expr} (h : ∀ e ∈ value, e.EachType P)
    (hv : Expr.expandOption t g value = .ok value') : ∀ e ∈ value', e.EachType Q := by
  intro e' he'
  cases value with
  | none =>
    cases hv
    cases he'
  | some e =>
    obtain ⟨e₁, h₁, heq⟩ := ok_of_map hv
    rw [← heq] at he'
    cases he'
    exact Expr.eachType_expand hPQ (h e rfl) h₁

mutual

/-- Expansion replaces each type of a statement by its expansion. -/
theorem eachType_expand
    (hPQ : ∀ use ty ty', P use ty → ty.expand t g = .ok ty' → Q use ty') :
    ∀ {s s' : Stmt}, s.EachType P → s.expand t g = .ok s' → s'.EachType Q
  | localVariable ty name value span, _, hs, h => by
    rw [EachType] at hs
    rw [expand] at h
    obtain ⟨ty', hty, h⟩ := ok_of_bind h
    obtain ⟨value', hv, h⟩ := ok_of_bind h
    cases h
    rw [EachType]
    exact ⟨hPQ _ _ _ hs.1 hty, eachType_expandOption hPQ hs.2 hv⟩
  | assign target op e span, _, hs, h => by
    rw [EachType] at hs
    rw [expand] at h
    obtain ⟨e', he, h⟩ := ok_of_bind h
    cases h
    rw [EachType]
    exact Expr.eachType_expand hPQ hs he
  | fieldAssign receiver field op e span, _, hs, h => by
    rw [EachType] at hs
    rw [expand] at h
    obtain ⟨r', hr, h⟩ := ok_of_bind h
    obtain ⟨e', he, h⟩ := ok_of_bind h
    cases h
    rw [EachType]
    exact ⟨Expr.eachType_expand hPQ hs.1 hr, Expr.eachType_expand hPQ hs.2 he⟩
  | expression e span, _, hs, h => by
    rw [EachType] at hs
    rw [expand] at h
    obtain ⟨e', he, h⟩ := ok_of_bind h
    cases h
    rw [EachType]
    exact Expr.eachType_expand hPQ hs he
  | ifElse c thenBranch none span, _, hs, h => by
    rw [EachType] at hs
    rw [expand] at h
    obtain ⟨c', hc, h⟩ := ok_of_bind h
    obtain ⟨a', ha, h⟩ := ok_of_bind h
    cases h
    rw [EachType]
    exact ⟨Expr.eachType_expand hPQ hs.1 hc, eachTypeIn_expandAll hPQ hs.2 ha⟩
  | ifElse c thenBranch (some elseBranch) span, _, hs, h => by
    rw [EachType] at hs
    rw [expand] at h
    obtain ⟨c', hc, h⟩ := ok_of_bind h
    obtain ⟨a', ha, h⟩ := ok_of_bind h
    obtain ⟨b', hb, h⟩ := ok_of_bind h
    cases h
    rw [EachType]
    exact ⟨Expr.eachType_expand hPQ hs.1 hc, eachTypeIn_expandAll hPQ hs.2.1 ha,
      eachTypeIn_expandAll hPQ hs.2.2 hb⟩
  | whileLoop c body span, _, hs, h => by
    rw [EachType] at hs
    rw [expand] at h
    obtain ⟨c', hc, h⟩ := ok_of_bind h
    obtain ⟨a', ha, h⟩ := ok_of_bind h
    cases h
    rw [EachType]
    exact ⟨Expr.eachType_expand hPQ hs.1 hc, eachTypeIn_expandAll hPQ hs.2 ha⟩
  | forLoop init c update body span, _, hs, h => by
    rw [EachType] at hs
    rw [expand] at h
    obtain ⟨i', hi, h⟩ := ok_of_bind h
    obtain ⟨c', hc, h⟩ := ok_of_bind h
    obtain ⟨u', hu, h⟩ := ok_of_bind h
    obtain ⟨a', ha, h⟩ := ok_of_bind h
    cases h
    rw [EachType]
    exact ⟨eachType_expand hPQ hs.1 hi, Expr.eachType_expand hPQ hs.2.1 hc,
      eachType_expand hPQ hs.2.2.1 hu, eachTypeIn_expandAll hPQ hs.2.2.2 ha⟩
  | returns value span, _, hs, h => by
    rw [EachType] at hs
    rw [expand] at h
    obtain ⟨value', hv, h⟩ := ok_of_bind h
    cases h
    rw [EachType]
    exact eachType_expandOption hPQ hs hv
  | block body span, _, hs, h => by
    rw [EachType] at hs
    rw [expand] at h
    obtain ⟨a', ha, h⟩ := ok_of_bind h
    cases h
    rw [EachType]
    exact eachTypeIn_expandAll hPQ hs ha

theorem eachTypeIn_expandAll
    (hPQ : ∀ use ty ty', P use ty → ty.expand t g = .ok ty' → Q use ty') :
    ∀ {ss ss' : List Stmt}, EachTypeIn P ss → expandAll t g ss = .ok ss' → EachTypeIn Q ss'
  | [], _, _, h => by
    rw [expandAll] at h
    cases h
    simp [EachTypeIn]
  | s :: rest, _, hs, h => by
    rw [EachTypeIn] at hs
    rw [expandAll] at h
    obtain ⟨s', h', h⟩ := ok_of_bind h
    obtain ⟨rest', hrest, h⟩ := ok_of_bind h
    cases h
    rw [EachTypeIn]
    exact ⟨eachType_expand hPQ hs.1 h', eachTypeIn_expandAll hPQ hs.2 hrest⟩

end

theorem expandOption_of_eachType (hP : ∀ use ty, P use ty → ty.expand t g = .ok ty)
    {value : Option Expr} (h : ∀ e ∈ value, e.EachType P) :
    Expr.expandOption t g value = .ok value := by
  cases value with
  | none => rfl
  | some e =>
    rw [Expr.expandOption, Expr.expand_of_eachType hP (h e rfl)]
    rfl

mutual

/-- A statement whose types stay under expansion stays itself. -/
theorem expand_of_eachType (hP : ∀ use ty, P use ty → ty.expand t g = .ok ty) :
    ∀ {s : Stmt}, s.EachType P → s.expand t g = .ok s
  | localVariable ty name value span, hs => by
    rw [EachType] at hs
    rw [expand, hP _ _ hs.1, expandOption_of_eachType hP hs.2]
    rfl
  | assign target op e span, hs => by
    rw [EachType] at hs
    rw [expand, Expr.expand_of_eachType hP hs]
    rfl
  | fieldAssign receiver field op e span, hs => by
    rw [EachType] at hs
    rw [expand, Expr.expand_of_eachType hP hs.1, Expr.expand_of_eachType hP hs.2]
    rfl
  | expression e span, hs => by
    rw [EachType] at hs
    rw [expand, Expr.expand_of_eachType hP hs]
    rfl
  | ifElse c thenBranch none span, hs => by
    rw [EachType] at hs
    rw [expand, Expr.expand_of_eachType hP hs.1, expandAll_of_eachTypeIn hP hs.2]
    rfl
  | ifElse c thenBranch (some elseBranch) span, hs => by
    rw [EachType] at hs
    rw [expand, Expr.expand_of_eachType hP hs.1, expandAll_of_eachTypeIn hP hs.2.1,
      expandAll_of_eachTypeIn hP hs.2.2]
    rfl
  | whileLoop c body span, hs => by
    rw [EachType] at hs
    rw [expand, Expr.expand_of_eachType hP hs.1, expandAll_of_eachTypeIn hP hs.2]
    rfl
  | forLoop init c update body span, hs => by
    rw [EachType] at hs
    rw [expand, expand_of_eachType hP hs.1, Expr.expand_of_eachType hP hs.2.1,
      expand_of_eachType hP hs.2.2.1, expandAll_of_eachTypeIn hP hs.2.2.2]
    rfl
  | returns value span, hs => by
    rw [EachType] at hs
    rw [expand, expandOption_of_eachType hP hs]
    rfl
  | block body span, hs => by
    rw [EachType] at hs
    rw [expand, expandAll_of_eachTypeIn hP hs]
    rfl

theorem expandAll_of_eachTypeIn (hP : ∀ use ty, P use ty → ty.expand t g = .ok ty) :
    ∀ {ss : List Stmt}, EachTypeIn P ss → expandAll t g ss = .ok ss
  | [], _ => by rw [expandAll]
  | s :: rest, hs => by
    rw [EachTypeIn] at hs
    rw [expandAll, expand_of_eachType hP hs.1, expandAll_of_eachTypeIn hP hs.2]
    rfl

end

end Expansion

end Stmt

/-! ## Declarations -/

/-- What holds of types by their use, under the generic parameters that they may name. -/
abbrev ScopedTypes := List String → TypeUse → TypeExpr → Prop

/-- What holds of each type written in a constructor. -/
structure ConstructorDecl.EachType (P : ScopedTypes) (g : List String) (c : ConstructorDecl) :
    Prop where
  parameters : ∀ q ∈ c.parameters, P g .declaration q.ty
  superArguments : ∀ es ∈ c.superArguments, Expr.EachTypeIn (P g) es
  body : Stmt.EachTypeIn (P g) c.body

/-- What holds of each type written in a method, in a class with given parameters. -/
structure MethodDecl.EachType (P : ScopedTypes) (g : List String) (m : MethodDecl) : Prop where
  returnType : ∀ ty ∈ m.returnType, P (m.visibleGenerics g) .declaration ty
  parameters : ∀ q ∈ m.parameters, P (m.visibleGenerics g) .declaration q.ty
  body : Stmt.EachTypeIn (P (m.visibleGenerics g)) m.body

/-- What holds of each type written in a class. -/
structure ClassDecl.EachType (P : ScopedTypes) (c : ClassDecl) : Prop where
  base : ∀ ty ∈ c.base, P (c.generics.map Identifier.name) .declaration ty
  fields : ∀ f ∈ c.fields, P (c.generics.map Identifier.name) .declaration f.ty
  constructors : ∀ k ∈ c.constructors, k.EachType P (c.generics.map Identifier.name)
  methods : ∀ m ∈ c.methods, m.EachType P (c.generics.map Identifier.name)

/-- What holds of each type written in a program. -/
def Program.EachType (P : ScopedTypes) (p : Program) : Prop := ∀ c ∈ p.classes, c.EachType P

section Deciding

variable {P : ScopedTypes} [∀ g use ty, Decidable (P g use ty)]

instance (g : List String) (c : ConstructorDecl) : Decidable (c.EachType P g) :=
  decidable_of_iff ((∀ q ∈ c.parameters, P g .declaration q.ty) ∧
      (∀ es ∈ c.superArguments, Expr.EachTypeIn (P g) es) ∧ Stmt.EachTypeIn (P g) c.body)
    ⟨fun ⟨hq, hs, hb⟩ => ⟨hq, hs, hb⟩, fun h => ⟨h.parameters, h.superArguments, h.body⟩⟩

instance (g : List String) (m : MethodDecl) : Decidable (m.EachType P g) :=
  decidable_of_iff ((∀ ty ∈ m.returnType, P (m.visibleGenerics g) .declaration ty) ∧
      (∀ q ∈ m.parameters, P (m.visibleGenerics g) .declaration q.ty) ∧
      Stmt.EachTypeIn (P (m.visibleGenerics g)) m.body)
    ⟨fun ⟨hr, hq, hb⟩ => ⟨hr, hq, hb⟩, fun h => ⟨h.returnType, h.parameters, h.body⟩⟩

instance (c : ClassDecl) : Decidable (c.EachType P) :=
  decidable_of_iff ((∀ ty ∈ c.base, P (c.generics.map Identifier.name) .declaration ty) ∧
      (∀ f ∈ c.fields, P (c.generics.map Identifier.name) .declaration f.ty) ∧
      (∀ k ∈ c.constructors, k.EachType P (c.generics.map Identifier.name)) ∧
      ∀ m ∈ c.methods, m.EachType P (c.generics.map Identifier.name))
    ⟨fun ⟨hb, hf, hk, hm⟩ => ⟨hb, hf, hk, hm⟩,
      fun h => ⟨h.base, h.fields, h.constructors, h.methods⟩⟩

instance (p : Program) : Decidable (p.EachType P) :=
  inferInstanceAs (Decidable (∀ c ∈ p.classes, c.EachType P))

end Deciding

section Regrouping

variable {P : ScopedTypes} {g : List String}

theorem ConstructorDecl.EachType.regroup {c : ConstructorDecl} (h : c.EachType P g) :
    c.regroup.EachType P g where
  parameters := h.parameters
  superArguments := by
    intro es hes
    obtain ⟨es₀, hes₀, rfl⟩ := Option.map_eq_some_iff.mp hes
    rw [← Expr.regroupAll_eq_map]
    exact Expr.regroupAll_eachType (h.superArguments es₀ hes₀)
  body := Stmt.eachTypeIn_regroupAll h.body

theorem MethodDecl.EachType.regroup {m : MethodDecl} (h : m.EachType P g) :
    m.regroup.EachType P g :=
  ⟨h.returnType, h.parameters, Stmt.eachTypeIn_regroupAll h.body⟩

theorem ClassDecl.EachType.regroup {c : ClassDecl} (h : c.EachType P) : c.regroup.EachType P where
  base := h.base
  fields := h.fields
  constructors := by
    intro k hk
    obtain ⟨k₀, hk₀, rfl⟩ := List.mem_map.mp hk
    exact (h.constructors k₀ hk₀).regroup
  methods := by
    intro m hm
    obtain ⟨m₀, hm₀, rfl⟩ := List.mem_map.mp hm
    exact (h.methods m₀ hm₀).regroup

/-- Regrouping keeps the types of a program. -/
theorem Program.EachType.regroup {p : Program} (h : p.EachType P) : p.regroup.EachType P := by
  intro c hc
  obtain ⟨c₀, hc₀, rfl⟩ := List.mem_map.mp hc
  exact (h c₀ hc₀).regroup

end Regrouping

/-! ## Parts of expanded declarations -/

section ExpandOk

variable {t : ClassTable F} {g : List String}

/-- An expanded parameter keeps its name. -/
theorem Parameter.expand_ok {q q' : Parameter} (h : q.expand t g = .ok q') :
    q'.name = q.name ∧ q.ty.expand t g = .ok q'.ty := by
  obtain ⟨ty, hty, h⟩ := ok_of_bind h
  cases h
  exact ⟨rfl, hty⟩

/-- An expanded field keeps its name and its place. -/
theorem FieldDecl.expand_ok {f f' : FieldDecl} (h : f.expand t g = .ok f') :
    f'.name = f.name ∧ f'.span = f.span ∧ f.ty.expand t g = .ok f'.ty := by
  obtain ⟨ty, hty, h⟩ := ok_of_bind h
  cases h
  exact ⟨rfl, rfl, hty⟩

/-- What expansion does to an optional type. -/
theorem TypeExpr.expandOption_ok {e e' : Option TypeExpr}
    (h : TypeExpr.expandOption t g e = .ok e') :
    Option.Rel (fun a b => a.expand t g = .ok b) e e' := by
  cases e with
  | none =>
    cases h
    exact .none
  | some a =>
    obtain ⟨b, hb, rfl⟩ := ok_of_map h
    exact .some hb

/-- The parts of an expanded constructor are the expanded parts of the constructor. -/
theorem ConstructorDecl.expand_ok {c c' : ConstructorDecl} (h : c.expand t g = .ok c') :
    ∃ parameters superArguments body,
      List.Forall₂ (fun q q' => Parameter.expand t g q = .ok q') c.parameters parameters ∧
      Expr.expandSuper t g c.superArguments = .ok superArguments ∧
      Stmt.expandAll t g c.body = .ok body ∧
      c' = { c with parameters, superArguments, body } := by
  obtain ⟨parameters, hp, h⟩ := ok_of_bind h
  obtain ⟨superArguments, hs, h⟩ := ok_of_bind h
  obtain ⟨body, hb, h⟩ := ok_of_bind h
  cases h
  exact ⟨parameters, superArguments, body, mapM_ok_iff.mp hp, hs, hb, rfl⟩

/--
The parts of an expanded method are the expanded parts of the method, under its own parameters and
those of its class.
-/
theorem MethodDecl.expand_ok {m m' : MethodDecl} (h : m.expand t g = .ok m') :
    ∃ returnType parameters body,
      Option.Rel (fun a b => TypeExpr.expand t (m.visibleGenerics g) a = .ok b) m.returnType
        returnType ∧
      List.Forall₂ (fun q q' => Parameter.expand t (m.visibleGenerics g) q = .ok q') m.parameters
        parameters ∧
      Stmt.expandAll t (m.visibleGenerics g) m.body = .ok body ∧
      m' = { m with returnType, parameters, body } := by
  obtain ⟨returnType, hr, h⟩ := ok_of_bind h
  obtain ⟨parameters, hp, h⟩ := ok_of_bind h
  obtain ⟨body, hb, h⟩ := ok_of_bind h
  cases h
  exact ⟨returnType, parameters, body, TypeExpr.expandOption_ok hr, mapM_ok_iff.mp hp, hb, rfl⟩

/-- Expansion keeps whether a method can start a program. -/
theorem MethodDecl.isEntry_expand {m m' : MethodDecl} (h : m.expand t g = .ok m') :
    m'.isEntry = m.isEntry := by
  obtain ⟨returnType, parameters, body, -, hp, -, rfl⟩ := MethodDecl.expand_ok h
  have hempty : parameters.isEmpty = m.parameters.isEmpty := by
    generalize m.parameters = qs at hp
    cases hp <;> rfl
  simp only [MethodDecl.isEntry, hempty]

/-- The parts of an expanded class are the expanded parts of the class, under its own parameters. -/
theorem ClassDecl.expand_ok {c c' : ClassDecl} (h : c.expand t = .ok c') :
    ∃ base fields constructors methods,
      Option.Rel (fun a b => TypeExpr.expand t (c.generics.map Identifier.name) a = .ok b) c.base
        base ∧
      List.Forall₂ (fun f f' => FieldDecl.expand t (c.generics.map Identifier.name) f = .ok f')
        c.fields fields ∧
      List.Forall₂
        (fun k k' => ConstructorDecl.expand t (c.generics.map Identifier.name) k = .ok k')
        c.constructors constructors ∧
      List.Forall₂ (fun m m' => MethodDecl.expand t (c.generics.map Identifier.name) m = .ok m')
        c.methods methods ∧
      c' = { c with base, fields, constructors, methods } := by
  obtain ⟨base, hb, h⟩ := ok_of_bind h
  obtain ⟨fields, hf, h⟩ := ok_of_bind h
  obtain ⟨constructors, hk, h⟩ := ok_of_bind h
  obtain ⟨methods, hm, h⟩ := ok_of_bind h
  cases h
  exact ⟨base, fields, constructors, methods, TypeExpr.expandOption_ok hb, mapM_ok_iff.mp hf,
    mapM_ok_iff.mp hk, mapM_ok_iff.mp hm, rfl⟩

/-- The classes of an expanded program are its expanded classes, in order. -/
theorem Program.expand_ok {p p' : Program} (h : p.expand t = .ok p') :
    ∃ classes, List.Forall₂ (fun c c' => ClassDecl.expand t c = .ok c') p.classes classes ∧
      p' = { p with classes } := by
  obtain ⟨classes, hc, h⟩ := ok_of_bind h
  cases h
  exact ⟨classes, mapM_ok_iff.mp hc, rfl⟩

end ExpandOk

/-! ## Expansion of declarations -/

section Expansion

variable {t : ClassTable F} {g : List String} {P Q : ScopedTypes}
  (hPQ : ∀ g use ty ty', P g use ty → ty.expand t g = .ok ty' → Q g use ty')

include hPQ

/-- Parameters that are in order stay so under expansion. -/
theorem forall_parameters_expand {qs qs' : List Parameter}
    (h : ∀ q ∈ qs, P g .declaration q.ty)
    (hq : List.Forall₂ (fun q q' => Parameter.expand t g q = .ok q') qs qs') :
    ∀ q ∈ qs', Q g .declaration q.ty := by
  intro q' hq'
  obtain ⟨q, hmem, hexp⟩ := exists_of_forall₂_mem hq hq'
  exact hPQ _ _ _ _ (h q hmem) (Parameter.expand_ok hexp).2

theorem forall_option_expand {e e' : Option TypeExpr} (h : ∀ ty ∈ e, P g .declaration ty)
    (he : Option.Rel (fun a b => TypeExpr.expand t g a = .ok b) e e') :
    ∀ ty ∈ e', Q g .declaration ty := by
  intro ty' hty'
  rcases rel_elim he with ⟨-, h2⟩ | ⟨a, b, h1, h2, hab⟩
  · rw [h2] at hty'
    cases hty'
  · rw [h2] at hty'
    cases hty'
    exact hPQ _ _ _ _ (h a h1) hab

theorem ConstructorDecl.EachType.expand {c c' : ConstructorDecl} (h : c.EachType P g)
    (hc : c.expand t g = .ok c') : c'.EachType Q g := by
  obtain ⟨parameters, superArguments, body, hp, hs, hb, rfl⟩ := ConstructorDecl.expand_ok hc
  refine ⟨forall_parameters_expand hPQ h.parameters hp, fun es hes => ?_,
    Stmt.eachTypeIn_expandAll (hPQ g) h.body hb⟩
  cases hsup : c.superArguments with
  | none =>
    rw [hsup] at hs
    cases hs
    cases hes
  | some es₀ =>
    rw [hsup] at hs
    obtain ⟨es₁, hes₁, rfl⟩ := ok_of_map hs
    cases hes
    exact Expr.eachTypeIn_expandAll (hPQ g) (h.superArguments es₀ hsup) hes₁

theorem MethodDecl.EachType.expand {m m' : MethodDecl} (h : m.EachType P g)
    (hm : m.expand t g = .ok m') : m'.EachType Q g := by
  obtain ⟨returnType, parameters, body, hr, hp, hb, rfl⟩ := MethodDecl.expand_ok hm
  exact ⟨forall_option_expand hPQ h.returnType hr, forall_parameters_expand hPQ h.parameters hp,
    Stmt.eachTypeIn_expandAll (hPQ _) h.body hb⟩

theorem ClassDecl.EachType.expand {c c' : ClassDecl} (h : c.EachType P)
    (hc : c.expand t = .ok c') : c'.EachType Q := by
  obtain ⟨base, fields, constructors, methods, hb, hf, hk, hm, rfl⟩ := ClassDecl.expand_ok hc
  refine ⟨forall_option_expand hPQ h.base hb, fun f' hf' => ?_, fun k' hk' => ?_,
    fun m' hm' => ?_⟩
  · obtain ⟨f, hmem, hexp⟩ := exists_of_forall₂_mem hf hf'
    exact hPQ _ _ _ _ (h.fields f hmem) (FieldDecl.expand_ok hexp).2.2
  · obtain ⟨k, hmem, hexp⟩ := exists_of_forall₂_mem hk hk'
    exact (h.constructors k hmem).expand hPQ hexp
  · obtain ⟨m, hmem, hexp⟩ := exists_of_forall₂_mem hm hm'
    exact (h.methods m hmem).expand hPQ hexp

/-- Expansion replaces each type of a program by its expansion. -/
theorem Program.EachType.expand {p p' : Program} (h : p.EachType P) (hp : p.expand t = .ok p') :
    p'.EachType Q := by
  obtain ⟨classes, hc, rfl⟩ := Program.expand_ok hp
  intro c' hc'
  obtain ⟨c, hmem, hexp⟩ := exists_of_forall₂_mem hc hc'
  exact (h c hmem).expand hPQ hexp

end Expansion

/-- A condition on all types holds of those a program writes. -/
theorem Program.eachType_of_forall {P : ScopedTypes} (h : ∀ g use ty, P g use ty) (p : Program) :
    p.EachType P := by
  intro c _
  refine ⟨fun ty _ => h _ _ ty, fun f _ => h _ _ f.ty, fun k _ => ?_, fun m _ => ?_⟩
  · exact ⟨fun q _ => h _ _ q.ty, fun es _ => Expr.eachTypeIn_of_forall (h _) es,
      Stmt.eachTypeIn_of_forall (h _) _⟩
  · exact ⟨fun ty _ => h _ _ ty, fun q _ => h _ _ q.ty, Stmt.eachTypeIn_of_forall (h _) _⟩

/-! ## Declarations that stay -/

section Stays

variable {t : ClassTable F} {g : List String} {P : ScopedTypes}
  (hP : ∀ g use ty, P g use ty → ty.expand t g = .ok ty)

include hP

/-- Parameters whose types stay are left as they are. -/
theorem Parameter.mapM_expand_of_forall {qs : List Parameter}
    (h : ∀ q ∈ qs, P g .declaration q.ty) : qs.mapM (Parameter.expand t g) = .ok qs := by
  refine mapM_of_forall fun q hq => ?_
  rw [Parameter.expand, hP _ _ _ (h q hq)]
  rfl

theorem TypeExpr.expandOption_of_forall {e : Option TypeExpr}
    (h : ∀ ty ∈ e, P g .declaration ty) : TypeExpr.expandOption t g e = .ok e := by
  cases e with
  | none => rfl
  | some ty =>
    rw [TypeExpr.expandOption, hP _ _ _ (h ty rfl)]
    rfl

theorem ConstructorDecl.expand_of_eachType {c : ConstructorDecl} (h : c.EachType P g) :
    c.expand t g = .ok c := by
  have hs : Expr.expandSuper t g c.superArguments = .ok c.superArguments := by
    cases hsup : c.superArguments with
    | none => rfl
    | some es =>
      rw [Expr.expandSuper, Expr.expandAll_of_eachTypeIn (hP g) (h.superArguments es hsup)]
      rfl
  rw [ConstructorDecl.expand, Parameter.mapM_expand_of_forall hP h.parameters, hs,
    Stmt.expandAll_of_eachTypeIn (hP g) h.body]
  rfl

theorem MethodDecl.expand_of_eachType {m : MethodDecl} (h : m.EachType P g) :
    m.expand t g = .ok m := by
  rw [MethodDecl.expand, TypeExpr.expandOption_of_forall hP h.returnType,
    Parameter.mapM_expand_of_forall hP h.parameters, Stmt.expandAll_of_eachTypeIn (hP _) h.body]
  rfl

theorem ClassDecl.expand_of_eachType {c : ClassDecl} (h : c.EachType P) :
    c.expand t = .ok c := by
  have hf : c.fields.mapM (FieldDecl.expand t (c.generics.map Identifier.name)) = .ok c.fields := by
    refine mapM_of_forall fun f hf => ?_
    rw [FieldDecl.expand, hP _ _ _ (h.fields f hf)]
    rfl
  rw [ClassDecl.expand, TypeExpr.expandOption_of_forall hP h.base, hf,
    mapM_of_forall fun k hk => ConstructorDecl.expand_of_eachType hP (h.constructors k hk),
    mapM_of_forall fun m hm => MethodDecl.expand_of_eachType hP (h.methods m hm)]
  rfl

/-- A program whose types stay under expansion stays itself. -/
theorem Program.expand_of_eachType {p : Program} (h : p.EachType P) : p.expand t = .ok p := by
  rw [Program.expand, mapM_of_forall fun c hc => ClassDecl.expand_of_eachType hP (h c hc)]
  rfl

end Stays

end Middleweight
