import Middleweight.Analysis.Regroup

/-!
# Grouped expressions

An expression is grouped when in every binary node of it the left operand binds at least as tight as
the node and the right operand binds tighter. Regrouping gives grouped expressions and leaves
grouped ones alone, so a second regrouping changes nothing.

* `Expr.grouped_regroup` : the stack of waiting operators stays such that completing it gives a
  grouped expression
* `Expr.regroup_of_grouped` : reading the chain of a grouped expression builds that expression again
* `Program.regroup_regroup` : regrouping is idempotent
-/

namespace Middleweight

namespace Expr

/-- The operator of a binary expression. -/
def topOp? : Expr → Option BinaryOp
  | binary _ op _ _ => some op
  | _ => none

/-- An expression may stand on the left of an operator: it binds at least as tight. -/
def FitsLeft (op : BinaryOp) (e : Expr) : Prop :=
  ∀ o, e.topOp? = some o → op.precedence ≤ o.precedence

/-- An expression may stand on the right of an operator: it binds tighter. -/
def FitsRight (op : BinaryOp) (e : Expr) : Prop :=
  ∀ o, e.topOp? = some o → op.precedence < o.precedence

mutual

/-- Whether every binary node in an expression has operands that fit. -/
def Grouped : Expr → Prop
  | binary lhs op rhs _ => lhs.Grouped ∧ rhs.Grouped ∧ lhs.FitsLeft op ∧ rhs.FitsRight op
  | literal _ _ => True
  | var _ => True
  | unary _ e _ => e.Grouped
  | step _ _ e _ => e.Grouped
  | ternary c a b _ => c.Grouped ∧ a.Grouped ∧ b.Grouped
  | new _ args _ => AllGrouped args
  | field e _ _ => e.Grouped
  | call e _ args _ => e.Grouped ∧ AllGrouped args
  | cast _ e _ => e.Grouped
  | instanceOf e _ _ => e.Grouped
  | group e _ => e.Grouped

def AllGrouped : List Expr → Prop
  | [] => True
  | e :: rest => e.Grouped ∧ AllGrouped rest

end

theorem fitsLeft_of_topOp? {op : BinaryOp} {e : Expr} (h : e.topOp? = none) : e.FitsLeft op := by
  intro o ho
  rw [h] at ho
  cases ho

theorem fitsRight_of_topOp? {op : BinaryOp} {e : Expr} (h : e.topOp? = none) :
    e.FitsRight op := by
  intro o ho
  rw [h] at ho
  cases ho

theorem fitsLeft_binary {op o : BinaryOp} {a b : Expr} {s : Span} :
    (binary a o b s).FitsLeft op ↔ op.precedence ≤ o.precedence :=
  ⟨fun h => h o rfl, fun h _ ho => Option.some.inj ho ▸ h⟩

theorem fitsRight_binary {op o : BinaryOp} {a b : Expr} {s : Span} :
    (binary a o b s).FitsRight op ↔ op.precedence < o.precedence :=
  ⟨fun h => h o rfl, fun h _ ho => Option.some.inj ho ▸ h⟩

end Expr

namespace Chain

open Middleweight.Expr

/-! ## Rebuilding gives grouped expressions -/

/-- An operand of a chain: grouped, and no chain itself. -/
def IsOperand (e : Expr) : Prop := e.Grouped ∧ e.topOp? = none

/-- A property of all operands of a chain. -/
def All (P : Expr → Prop) (c : Chain) : Prop := P c.first ∧ ∀ l ∈ c.links, P l.operand

theorem all_join {P : Expr → Prop} {l r : Chain} {op : BinaryOp} {span : Span} (hl : l.All P)
    (hr : r.All P) : (l.join op span r).All P := by
  refine ⟨hl.1, fun k hk => ?_⟩
  rcases List.mem_append.mp hk with hk | hk
  · exact hl.2 k hk
  · rcases List.mem_cons.mp hk with rfl | hk
    · exact hr.1
    · exact hr.2 k hk

theorem all_single {P : Expr → Prop} {e : Expr} (h : P e) : (single e).All P :=
  ⟨h, by simp [single]⟩

/-- Completing the waiting operators one after the other meets only operands that fit. -/
def Waits : List Pending → Expr → Prop
  | [], top => top.Grouped
  | p :: rest, top =>
    top.FitsRight p.op ∧ p.lhs.Grouped ∧ p.lhs.FitsLeft p.op ∧ top.Grouped ∧
      Waits rest (.binary p.lhs p.op top p.span)

theorem Waits.grouped {pending : List Pending} {top : Expr} (h : Waits pending top) :
    top.Grouped := by
  cases pending with
  | nil => exact h
  | cons p rest => exact h.2.2.2.1

/-- Whether an expression may stand on the right of the innermost waiting operator. -/
def FitsTop (pending : List Pending) (e : Expr) : Prop := ∀ p ∈ pending.head?, e.FitsRight p.op

/-- What is on top can be exchanged for anything grouped that fits. -/
theorem Waits.exchange {pending : List Pending} : ∀ {top top' : Expr}, Waits pending top →
    top'.Grouped → FitsTop pending top' → Waits pending top' := by
  induction pending with
  | nil => intro top top' _ hg _; exact hg
  | cons p rest ih =>
    rintro top top' ⟨-, hl, hfl, -, hrest⟩ hg hfit
    have hfr : top'.FitsRight p.op := hfit p (by simp)
    have hnode : (Expr.binary p.lhs p.op top' p.span).Grouped := by
      rw [Grouped]
      exact ⟨hl, hg, hfl, hfr⟩
    refine ⟨hfr, hl, hfl, hg, ih hrest hnode ?_⟩
    intro q hq
    cases rest with
    | nil => cases hq
    | cons q' rest' =>
      cases hq
      exact fitsRight_binary.mpr (fitsRight_binary.mp hrest.1)

/-- After completing operators the rest waits, the result fits, and what still waits is looser. -/
theorem reduce_spec (op : BinaryOp) : ∀ {pending : List Pending} {top : Expr},
    Waits pending top → top.FitsLeft op →
    Waits (reduce op.precedence pending top).1 (reduce op.precedence pending top).2 ∧
      (reduce op.precedence pending top).2.FitsLeft op ∧
      ∀ p ∈ (reduce op.precedence pending top).1.head?, p.op.precedence < op.precedence := by
  intro pending
  induction pending with
  | nil =>
    intro top h hfit
    exact ⟨h, hfit, by simp [reduce]⟩
  | cons p rest ih =>
    intro top h hfit
    rw [reduce]
    split
    · next hle => exact ih h.2.2.2.2 (fitsLeft_binary.mpr hle)
    · next hlt =>
      refine ⟨h, hfit, fun q hq => ?_⟩
      cases hq
      omega

theorem grouped_finish : ∀ {pending : List Pending} {top : Expr}, Waits pending top →
    (finish pending top).Grouped := by
  intro pending
  induction pending with
  | nil => intro top h; exact h
  | cons p rest ih => intro top h; exact ih h.2.2.2.2

theorem grouped_shift {links : List Link} : ∀ {pending : List Pending} {top : Expr},
    (∀ l ∈ links, IsOperand l.operand) → Waits pending top → top.topOp? = none →
    (shift pending top links).Grouped := by
  induction links with
  | nil => intro pending top _ h _; exact grouped_finish h
  | cons l rest ih =>
    intro pending top hops h htop
    obtain ⟨hw, hfit, hlt⟩ := reduce_spec l.op h (fitsLeft_of_topOp? htop)
    obtain ⟨hop, hnone⟩ := hops l (by simp)
    rw [shift]
    generalize reduce l.op.precedence pending top = r at hw hfit hlt
    obtain ⟨pending', lhs⟩ := r
    refine ih (fun k hk => hops k (by simp [hk])) ?_ hnone
    have hnode : (Expr.binary lhs l.op l.operand l.span).Grouped := by
      rw [Grouped]
      exact ⟨hw.grouped, hop, hfit, fitsRight_of_topOp? hnone⟩
    refine ⟨fitsRight_of_topOp? hnone, hw.grouped, hfit, hop, hw.exchange hnode ?_⟩
    exact fun p hp => fitsRight_binary.mpr (hlt p hp)

theorem grouped_rebuild {c : Chain} (h : c.All IsOperand) : c.rebuild.Grouped :=
  grouped_shift h.2 h.1.1 h.1.2

/-! ## Rebuilding keeps what holds of all operands -/

section Keeps

variable {P : Expr → Prop} (hP : ∀ a op b s, P a → P b → P (.binary a op b s))

include hP

theorem reduce_keeps (precedence : Nat) : ∀ {pending : List Pending} {top : Expr},
    (∀ p ∈ pending, P p.lhs) → P top →
    (∀ p ∈ (reduce precedence pending top).1, P p.lhs) ∧ P (reduce precedence pending top).2 := by
  intro pending
  induction pending with
  | nil => intro top h ht; exact ⟨by simp [reduce], ht⟩
  | cons p rest ih =>
    intro top h ht
    rw [reduce]
    split
    · exact ih (fun q hq => h q (by simp [hq])) (hP _ _ _ _ (h p (by simp)) ht)
    · exact ⟨h, ht⟩

theorem finish_keeps : ∀ {pending : List Pending} {top : Expr}, (∀ p ∈ pending, P p.lhs) →
    P top → P (finish pending top) := by
  intro pending
  induction pending with
  | nil => intro top _ ht; exact ht
  | cons p rest ih =>
    intro top h ht
    exact ih (fun q hq => h q (by simp [hq])) (hP _ _ _ _ (h p (by simp)) ht)

theorem shift_keeps {links : List Link} : ∀ {pending : List Pending} {top : Expr},
    (∀ l ∈ links, P l.operand) → (∀ p ∈ pending, P p.lhs) → P top →
    P (shift pending top links) := by
  induction links with
  | nil => intro pending top _ h ht; exact finish_keeps hP h ht
  | cons l rest ih =>
    intro pending top hl h ht
    obtain ⟨hpending, hlhs⟩ := reduce_keeps hP l.op.precedence h ht
    rw [shift]
    generalize reduce l.op.precedence pending top = r at hpending hlhs
    obtain ⟨pending', lhs⟩ := r
    refine ih (fun k hk => hl k (by simp [hk])) (fun p hp => ?_) (hl l (by simp))
    rcases List.mem_cons.mp hp with rfl | hp
    · exact hlhs
    · exact hpending p hp

/-- What holds of all operands of a chain, and of binary nodes by their operands, holds of the tree. -/
theorem rebuild_keeps {c : Chain} (h : c.All P) : P c.rebuild :=
  shift_keeps hP h.2 (by simp) h.1

end Keeps

/-! ## Grouped expressions stay -/

/-- An operator that is looser than what comes completes nothing. -/
theorem reduce_of_lt {op : BinaryOp} {pending : List Pending} {top : Expr}
    (h : ∀ p ∈ pending.head?, p.op.precedence < op.precedence) :
    reduce op.precedence pending top = (pending, top) := by
  cases pending with
  | nil => rfl
  | cons p rest =>
    have := h p (by simp)
    rw [reduce, if_neg (by omega)]

end Chain

namespace Expr

open Chain

mutual

/-- The chain of an expression has grouped operands. -/
theorem chain_isOperand : ∀ e : Expr, e.chain.All IsOperand
  | binary lhs op rhs span => by
    rw [chain]
    exact all_join (chain_isOperand lhs) (chain_isOperand rhs)
  | literal value span => by rw [chain]; exact all_single ⟨by simp [Grouped], rfl⟩
  | var name => by rw [chain]; exact all_single ⟨by simp [Grouped], rfl⟩
  | unary op e span => by
    rw [chain]
    exact all_single ⟨by rw [Grouped]; exact grouped_rebuild (chain_isOperand e), rfl⟩
  | step op before e span => by
    rw [chain]
    exact all_single ⟨by rw [Grouped]; exact grouped_rebuild (chain_isOperand e), rfl⟩
  | ternary c a b span => by
    rw [chain]
    refine all_single ⟨?_, rfl⟩
    rw [Grouped]
    exact ⟨grouped_rebuild (chain_isOperand c), grouped_rebuild (chain_isOperand a),
      grouped_rebuild (chain_isOperand b)⟩
  | new ty args span => by
    rw [chain]
    exact all_single ⟨by rw [Grouped]; exact allGrouped_regroupAll args, rfl⟩
  | field e name span => by
    rw [chain]
    exact all_single ⟨by rw [Grouped]; exact grouped_rebuild (chain_isOperand e), rfl⟩
  | call e method args span => by
    rw [chain]
    refine all_single ⟨?_, rfl⟩
    rw [Grouped]
    exact ⟨grouped_rebuild (chain_isOperand e), allGrouped_regroupAll args⟩
  | cast ty e span => by
    rw [chain]
    exact all_single ⟨by rw [Grouped]; exact grouped_rebuild (chain_isOperand e), rfl⟩
  | instanceOf e ty span => by
    rw [chain]
    exact all_single ⟨by rw [Grouped]; exact grouped_rebuild (chain_isOperand e), rfl⟩
  | group e span => by
    rw [chain]
    exact all_single ⟨by rw [Grouped]; exact grouped_rebuild (chain_isOperand e), rfl⟩

theorem allGrouped_regroupAll : ∀ es : List Expr, AllGrouped (regroupAll es)
  | [] => by rw [regroupAll, AllGrouped]; trivial
  | e :: rest => by
    rw [regroupAll, AllGrouped]
    exact ⟨grouped_rebuild (chain_isOperand e), allGrouped_regroupAll rest⟩

end

/-- Regrouping gives a grouped expression. -/
theorem grouped_regroup (e : Expr) : e.regroup.Grouped := grouped_rebuild (chain_isOperand e)

/-- An expression may stand on the left of the first of some links. -/
def FitsLinks (e : Expr) (links : List Link) : Prop := ∀ l ∈ links.head?, e.FitsLeft l.op

/-- Reading one operand is reading a chain of one operand. -/
theorem shift_single {e e' : Expr} (h : e.chain = .single e') (heq : e' = e)
    (pending : List Pending) (rest : List Link) :
    shift pending e.chain.first (e.chain.links ++ rest) = shift pending e rest := by
  rw [h, heq]
  rfl

/-- A grouped node: its chain is read as its two operands are, and then the node is complete. -/
theorem shift_binary {lhs rhs : Expr} {op : BinaryOp} {span : Span}
    (hg : (binary lhs op rhs span).Grouped)
    (hl : ∀ pending rest, FitsTop pending lhs → lhs.FitsLinks rest →
      shift pending lhs.chain.first (lhs.chain.links ++ rest) = shift pending lhs rest)
    (hr : ∀ pending rest, FitsTop pending rhs → rhs.FitsLinks rest →
      shift pending rhs.chain.first (rhs.chain.links ++ rest) = shift pending rhs rest)
    {pending : List Pending} {rest : List Link} (hp : FitsTop pending (binary lhs op rhs span))
    (hrest : (binary lhs op rhs span).FitsLinks rest) :
    shift pending (binary lhs op rhs span).chain.first
        ((binary lhs op rhs span).chain.links ++ rest) =
      shift pending (binary lhs op rhs span) rest := by
  rw [Grouped] at hg
  obtain ⟨-, -, hfl, hfr⟩ := hg
  have hloose : ∀ p ∈ pending.head?, p.op.precedence < op.precedence :=
    fun p hmem => fitsRight_binary.mp (hp p hmem)
  have hlhs : FitsTop pending lhs := fun p hmem o ho => by
    have := hloose p hmem
    have := hfl o ho
    omega
  have hrhs : rhs.FitsLinks rest := fun l hmem o ho => by
    have := fitsLeft_binary.mp (hrest l hmem)
    have := hfr o ho
    omega
  rw [chain]
  show shift pending lhs.chain.first
    ((lhs.chain.links ++ ⟨op, span, rhs.chain.first⟩ :: rhs.chain.links) ++ rest) = _
  rw [List.append_assoc, List.cons_append, hl pending _ hlhs (by rintro l ⟨⟩; exact hfl), shift,
    reduce_of_lt hloose]
  show shift (⟨lhs, op, span⟩ :: pending) rhs.chain.first (rhs.chain.links ++ rest) = _
  rw [hr _ rest (by rintro p ⟨⟩; exact hfr) hrhs]
  cases rest with
  | nil => rfl
  | cons l rest =>
    have hle := fitsLeft_binary.mp (hrest l (by simp))
    rw [shift, shift, reduce, if_pos hle]

mutual

/-- Reading the chain of a grouped expression puts that expression on top. -/
theorem shift_chain : ∀ {e : Expr}, e.Grouped → ∀ (pending : List Pending) (rest : List Link),
    FitsTop pending e → e.FitsLinks rest →
    shift pending e.chain.first (e.chain.links ++ rest) = shift pending e rest
  | binary lhs op rhs span, hg, _, _, hp, hrest => by
    have hg' := hg
    rw [Grouped] at hg'
    exact shift_binary hg (shift_chain hg'.1) (shift_chain hg'.2.1) hp hrest
  | literal value span, _, pending, rest, _, _ => shift_single (by rw [chain]) rfl pending rest
  | var name, _, pending, rest, _, _ => shift_single (by rw [chain]) rfl pending rest
  | unary op e span, hg, pending, rest, _, _ => by
    rw [Grouped] at hg
    exact shift_single (by rw [chain]) (by rw [rebuild_chain hg]) pending rest
  | step op before e span, hg, pending, rest, _, _ => by
    rw [Grouped] at hg
    exact shift_single (by rw [chain]) (by rw [rebuild_chain hg]) pending rest
  | ternary c a b span, hg, pending, rest, _, _ => by
    rw [Grouped] at hg
    exact shift_single (by rw [chain])
      (by rw [rebuild_chain hg.1, rebuild_chain hg.2.1, rebuild_chain hg.2.2]) pending rest
  | new ty args span, hg, pending, rest, _, _ => by
    rw [Grouped] at hg
    exact shift_single (by rw [chain]) (by rw [regroupAll_of_allGrouped hg]) pending rest
  | field e name span, hg, pending, rest, _, _ => by
    rw [Grouped] at hg
    exact shift_single (by rw [chain]) (by rw [rebuild_chain hg]) pending rest
  | call e method args span, hg, pending, rest, _, _ => by
    rw [Grouped] at hg
    exact shift_single (by rw [chain])
      (by rw [rebuild_chain hg.1, regroupAll_of_allGrouped hg.2]) pending rest
  | cast ty e span, hg, pending, rest, _, _ => by
    rw [Grouped] at hg
    exact shift_single (by rw [chain]) (by rw [rebuild_chain hg]) pending rest
  | instanceOf e ty span, hg, pending, rest, _, _ => by
    rw [Grouped] at hg
    exact shift_single (by rw [chain]) (by rw [rebuild_chain hg]) pending rest
  | group e span, hg, pending, rest, _, _ => by
    rw [Grouped] at hg
    exact shift_single (by rw [chain]) (by rw [rebuild_chain hg]) pending rest

theorem rebuild_chain {e : Expr} (hg : e.Grouped) : e.chain.rebuild = e := by
  have h := shift_chain hg [] [] (by rintro p ⟨⟩) (by rintro l ⟨⟩)
  rw [List.append_nil] at h
  exact h

theorem regroupAll_of_allGrouped : ∀ {es : List Expr}, AllGrouped es → regroupAll es = es
  | [], _ => by rw [regroupAll]
  | e :: rest, hg => by
    rw [AllGrouped] at hg
    rw [regroupAll, rebuild_chain hg.1, regroupAll_of_allGrouped hg.2]

end

/-- A grouped expression is left alone. -/
theorem regroup_of_grouped {e : Expr} (h : e.Grouped) : e.regroup = e := rebuild_chain h

@[simp] theorem regroup_regroup (e : Expr) : e.regroup.regroup = e.regroup :=
  regroup_of_grouped (grouped_regroup e)

end Expr

/-! ## Statements and declarations -/

namespace Stmt

mutual

theorem regroup_regroup : ∀ s : Stmt, s.regroup.regroup = s.regroup
  | localVariable ty name value span => by cases value <;> simp [regroup]
  | assign target op e span => by simp [regroup]
  | fieldAssign receiver field op e span => by simp [regroup]
  | expression e span => by simp [regroup]
  | ifElse c thenBranch none span => by simp [regroup, regroupAll_regroupAll thenBranch]
  | ifElse c thenBranch (some elseBranch) span => by
    simp [regroup, regroupAll_regroupAll thenBranch, regroupAll_regroupAll elseBranch]
  | whileLoop c body span => by simp [regroup, regroupAll_regroupAll body]
  | forLoop init c update body span => by
    simp [regroup, regroup_regroup init, regroup_regroup update, regroupAll_regroupAll body]
  | returns value span => by cases value <;> simp [regroup]
  | block body span => by simp [regroup, regroupAll_regroupAll body]

theorem regroupAll_regroupAll : ∀ ss : List Stmt, regroupAll (regroupAll ss) = regroupAll ss
  | [] => by simp [regroupAll]
  | s :: rest => by simp [regroupAll, regroup_regroup s, regroupAll_regroupAll rest]

end

end Stmt

theorem ConstructorDecl.regroup_regroup (c : ConstructorDecl) : c.regroup.regroup = c.regroup := by
  obtain ⟨parameters, superArguments, body, span⟩ := c
  cases superArguments <;>
    simp [ConstructorDecl.regroup, Stmt.regroupAll_regroupAll, Function.comp_def]

theorem MethodDecl.regroup_regroup (m : MethodDecl) : m.regroup.regroup = m.regroup := by
  simp [MethodDecl.regroup, Stmt.regroupAll_regroupAll]

theorem ClassDecl.regroup_regroup (c : ClassDecl) : c.regroup.regroup = c.regroup := by
  simp [ClassDecl.regroup, Function.comp_def, ConstructorDecl.regroup_regroup,
    MethodDecl.regroup_regroup]

/-- Regrouping is idempotent. -/
theorem Program.regroup_regroup (p : Program) : p.regroup.regroup = p.regroup := by
  simp [Program.regroup, Function.comp_def, ClassDecl.regroup_regroup]

end Middleweight
