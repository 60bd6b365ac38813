import Middleweight.Proofs.Analysis.Regroup
import Middleweight.Proofs.Basic

/-!
# Chains of operators

`Expr.flatten` reads a chain of binary operators from left to right and forgets how it is nested.
Regrouping keeps what is read: the operators with their places, and between them the operands, each
regrouped. So regrouping depends on nothing else, and two expressions are regrouped alike exactly if
one can be turned into the other by rotations `(a o b) p c` to `a o (b p c)` and back, at any depth.

* `flatten_regroup_eq` : regrouping gives a grouped expression with the operators and operands it had
* `regroup_canonical` : grouped expressions are the ones that regrouping leaves alone, and
  regrouping a program does nothing but rotate
-/

namespace Middleweight

/-! ## Chains read from left to right -/

namespace Chain

/-- The operators of a chain and where they stand. -/
def operators (c : Chain) : List (BinaryOp × Span) := c.links.map fun l => (l.op, l.span)

/-- The operands of a chain; there is one more than operators. -/
def operands (c : Chain) : List Expr := c.first :: c.links.map Link.operand

/-- A chain with every operand replaced. -/
def map (f : Expr → Expr) (c : Chain) : Chain :=
  ⟨f c.first, c.links.map fun l => { l with operand := f l.operand }⟩

/-- A chain with more links at its end. -/
def extend (c : Chain) (links : List Link) : Chain := ⟨c.first, c.links ++ links⟩

/-- The links of a chain are its operators paired with its operands but the first. -/
theorem ext_of_operands {c d : Chain} (hop : c.operators = d.operators)
    (hopd : c.operands = d.operands) : c = d := by
  obtain ⟨first, links⟩ := c
  obtain ⟨first', links'⟩ := d
  obtain ⟨rfl, hlinks⟩ := List.cons.inj hopd
  have hsame : links = links' := by
    clear hopd
    induction links generalizing links' with
    | nil => cases links' with
      | nil => rfl
      | cons l rest => cases hlinks
    | cons l rest ih => cases links' with
      | nil => cases hlinks
      | cons l' rest' =>
        obtain ⟨hl, hrest⟩ := List.cons.inj hop
        obtain ⟨ho, hos⟩ := List.cons.inj hlinks
        obtain ⟨op, span, operand⟩ := l
        obtain ⟨op', span', operand'⟩ := l'
        cases hl
        cases ho
        rw [ih rest' hrest hos]
  rw [hsame]

@[simp] theorem operators_map (f : Expr → Expr) (c : Chain) :
    (c.map f).operators = c.operators := by
  simp [operators, map, Function.comp_def]

@[simp] theorem operands_map (f : Expr → Expr) (c : Chain) :
    (c.map f).operands = c.operands.map f := by
  simp [operands, map, Function.comp_def]

@[simp] theorem operands_single (e : Expr) : (single e).operands = [e] := rfl

@[simp] theorem operands_join (l : Chain) (op : BinaryOp) (span : Span) (r : Chain) :
    (l.join op span r).operands = l.operands ++ r.operands := by
  simp [operands, join]

theorem map_join (f : Expr → Expr) (l : Chain) (op : BinaryOp) (span : Span) (r : Chain) :
    (l.join op span r).map f = (l.map f).join op span (r.map f) := by
  simp [map, join]

theorem join_extend (l : Chain) (op : BinaryOp) (span : Span) (r : Chain) (links : List Link) :
    l.join op span (r.extend links) = (l.join op span r).extend links := by
  simp [join, extend]

end Chain

namespace Expr

open Chain

/-- The chain of an expression with its operands as they stand. -/
def flatten : Expr → Chain
  | binary lhs op rhs span => lhs.flatten.join op span rhs.flatten
  | e => .single e

theorem flatten_of_topOp? {e : Expr} (h : e.topOp? = none) : e.flatten = .single e := by
  cases e with
  | binary lhs op rhs span => cases h
  | _ => rfl

end Expr

/-! ## Rebuilding loses nothing -/

namespace Chain

open Middleweight.Expr

/-- The operators that wait, with their left operands, in front of a chain. -/
def behind : List Pending → Chain → Chain
  | [], c => c
  | p :: rest, c => behind rest (p.lhs.flatten.join p.op p.span c)

theorem behind_extend (pending : List Pending) (c : Chain) (links : List Link) :
    behind pending (c.extend links) = (behind pending c).extend links := by
  induction pending generalizing c with
  | nil => rfl
  | cons p rest ih => rw [behind, behind, join_extend, ih]

theorem flatten_finish (pending : List Pending) (top : Expr) :
    (finish pending top).flatten = behind pending top.flatten := by
  induction pending generalizing top with
  | nil => rfl
  | cons p rest ih => rw [finish, ih, behind, flatten]

theorem behind_reduce (precedence : Nat) (pending : List Pending) (top : Expr) :
    behind (reduce precedence pending top).1 (reduce precedence pending top).2.flatten =
      behind pending top.flatten := by
  induction pending generalizing top with
  | nil => rfl
  | cons p rest ih =>
    rw [reduce]
    split
    · rw [ih, behind, flatten]
    · rfl

/-- Whatever waits while the links are read, the tree reads as what waits, the top and the links. -/
theorem flatten_shift {links : List Link} (h : ∀ l ∈ links, l.operand.topOp? = none)
    (pending : List Pending) (top : Expr) :
    (shift pending top links).flatten = (behind pending top.flatten).extend links := by
  induction links generalizing pending top with
  | nil => rw [shift, flatten_finish]; simp [extend]
  | cons l rest ih =>
    have hreduce := behind_reduce l.op.precedence pending top
    rw [shift]
    generalize reduce l.op.precedence pending top = r at hreduce
    obtain ⟨pending', lhs⟩ := r
    have hcons : (lhs.flatten.join l.op l.span (single l.operand)).extend rest =
        lhs.flatten.extend (l :: rest) := by
      simp [join, extend, single]
    show (shift (⟨lhs, l.op, l.span⟩ :: pending') l.operand rest).flatten = _
    rw [ih (fun k hk => h k (by simp [hk])), flatten_of_topOp? (h l (by simp)), behind,
      ← behind_extend, hcons, behind_extend, hreduce]

theorem flatten_rebuild {c : Chain} (h : c.All fun e => e.topOp? = none) :
    c.rebuild.flatten = c := by
  rw [rebuild, flatten_shift h.2, behind, flatten_of_topOp? h.1]
  rfl

end Chain

namespace Expr

open Chain

/-- An operand of a chain is regrouped by itself. -/
theorem chain_of_topOp? {e : Expr} (h : e.topOp? = none) : e.chain = .single e.regroup := by
  cases e with
  | binary lhs op rhs span => cases h
  | _ => rw [regroup, chain, rebuild_single]

/-- The chain that regrouping builds from has the operands of the expression, regrouped. -/
theorem chain_eq_map : ∀ e : Expr, e.chain = e.flatten.map regroup
  | literal _ _ | var _ | unary _ _ _ | step _ _ _ _ | ternary _ _ _ _ | new _ _ _ | field _ _ _
  | call _ _ _ _ | cast _ _ _ | instanceOf _ _ _ | group _ _ => by
    rw [chain_of_topOp? rfl, flatten_of_topOp? rfl]
    rfl
  | binary lhs op rhs span => by
    rw [chain, flatten, map_join, chain_eq_map lhs, chain_eq_map rhs]

/-- Reading a regrouped expression gives what was read before, the operands regrouped. -/
theorem flatten_regroup (e : Expr) : e.regroup.flatten = e.flatten.map regroup := by
  have hall : e.chain.All fun x => x.topOp? = none :=
    ⟨(chain_isOperand e).1.2, fun l hl => ((chain_isOperand e).2 l hl).2⟩
  rw [regroup, flatten_rebuild hall, chain_eq_map]

/-- Regrouping depends on the operators and the regrouped operands only. -/
theorem regroup_eq_of_flatten {e e' : Expr} (h : e.flatten.map regroup = e'.flatten.map regroup) :
    e.regroup = e'.regroup := by
  rw [regroup, regroup, chain_eq_map, chain_eq_map, h]

/-- Regrouping gives a grouped expression; its operators are those of the expression, in their order
and places, and its operands are those of the expression, in their order and each regrouped. -/
theorem flatten_regroup_eq (e : Expr) :
    e.regroup.Grouped ∧ e.regroup.flatten.operators = e.flatten.operators ∧
      e.regroup.flatten.operands = e.flatten.operands.map regroup := by
  refine ⟨grouped_regroup e, ?_, ?_⟩
  · rw [flatten_regroup, operators_map]
  · rw [flatten_regroup, operands_map]

/-! ## Rotations -/

mutual

/-- Two expressions that differ in the nesting of chains only: the congruence that rotations
generate. -/
inductive Renested : Expr → Expr → Prop
  | rotate (a : Expr) (o : BinaryOp) (s : Span) (b : Expr) (p : BinaryOp) (t : Span) (c : Expr) :
      Renested (binary (binary a o b s) p c t) (binary a o (binary b p c t) s)
  | refl (e : Expr) : Renested e e
  | symm {e e' : Expr} : Renested e e' → Renested e' e
  | trans {e e' e'' : Expr} : Renested e e' → Renested e' e'' → Renested e e''
  | binary {l l' r r' : Expr} (op : BinaryOp) (span : Span) :
      Renested l l' → Renested r r' → Renested (binary l op r span) (binary l' op r' span)
  | unary {e e' : Expr} (op : UnaryOp) (span : Span) :
      Renested e e' → Renested (unary op e span) (unary op e' span)
  | step {e e' : Expr} (op : StepOp) (before : Bool) (span : Span) :
      Renested e e' → Renested (step op before e span) (step op before e' span)
  | ternary {c c' a a' b b' : Expr} (span : Span) :
      Renested c c' → Renested a a' → Renested b b' →
      Renested (ternary c a b span) (ternary c' a' b' span)
  | new {es es' : List Expr} (ty : TypeExpr) (span : Span) :
      AllRenested es es' → Renested (new ty es span) (new ty es' span)
  | field {e e' : Expr} (name : Identifier) (span : Span) :
      Renested e e' → Renested (field e name span) (field e' name span)
  | call {e e' : Expr} {es es' : List Expr} (method : Identifier) (span : Span) :
      Renested e e' → AllRenested es es' →
      Renested (call e method es span) (call e' method es' span)
  | cast {e e' : Expr} (ty : TypeExpr) (span : Span) :
      Renested e e' → Renested (cast ty e span) (cast ty e' span)
  | instanceOf {e e' : Expr} (ty : TypeExpr) (span : Span) :
      Renested e e' → Renested (instanceOf e ty span) (instanceOf e' ty span)
  | group {e e' : Expr} (span : Span) : Renested e e' → Renested (group e span) (group e' span)

/-- Two lists of such expressions. -/
inductive AllRenested : List Expr → List Expr → Prop
  | nil : AllRenested [] []
  | cons {e e' : Expr} {es es' : List Expr} :
      Renested e e' → AllRenested es es' → AllRenested (e :: es) (e' :: es')

end

end Expr

namespace Chain

open Middleweight.Expr

/-- One more link at the end of a chain that is nested to the left. -/
def attach (e : Expr) (l : Link) : Expr := .binary e l.op l.operand l.span

/-- A chain nested to the left throughout. -/
def leftNested (c : Chain) : Expr := c.links.foldl attach c.first

theorem renested_foldl {links : List Link} {e e' : Expr} (h : e.Renested e') :
    (links.foldl attach e).Renested (links.foldl attach e') := by
  induction links generalizing e e' with
  | nil => exact h
  | cons l rest ih => exact ih (.binary l.op l.span h (.refl l.operand))

/-- An operator in front of a left-nested chain moves into it, one rotation for each link. -/
theorem renested_before (a : Expr) (op : BinaryOp) (span : Span) (links : List Link) (e : Expr) :
    (Expr.binary a op (links.foldl attach e) span).Renested
      (links.foldl attach (.binary a op e span)) := by
  induction links generalizing e with
  | nil => exact .refl _
  | cons l rest ih =>
    exact (ih (attach e l)).trans (renested_foldl (.symm (.rotate a op span e l.op l.span l.operand)))

theorem leftNested_join (l : Chain) (op : BinaryOp) (span : Span) (r : Chain) :
    (l.join op span r).leftNested = r.links.foldl attach (.binary l.leftNested op r.first span) := by
  rw [leftNested, join, List.foldl_append, List.foldl_cons]
  rfl

/-- Left-nested chains with the same operators and renested operands. -/
theorem renested_leftNested {f : Expr → Expr} {c : Chain}
    (h : ∀ e ∈ c.operands, e.Renested (f e)) : c.leftNested.Renested (c.map f).leftNested := by
  obtain ⟨first, links⟩ := c
  have hfirst : first.Renested (f first) := h first (by simp [operands])
  have hlinks : ∀ l ∈ links, l.operand.Renested (f l.operand) := fun l hl =>
    h l.operand (by
      simp only [operands, List.mem_cons, List.mem_map]
      exact .inr ⟨l, hl, rfl⟩)
  clear h
  simp only [leftNested, map]
  generalize hx : f first = x at hfirst
  clear hx
  induction links generalizing first x with
  | nil => exact hfirst
  | cons l rest ih =>
    exact ih _ (fun k hk => hlinks k (by simp [hk])) _
      (.binary l.op l.span hfirst (hlinks l (by simp)))

end Chain

namespace Expr

open Chain

/-- Every expression is its chain nested to the left, up to rotations. -/
theorem renested_flatten : ∀ e : Expr, e.Renested e.flatten.leftNested
  | .literal _ _ | .var _ | .unary _ _ _ | .step _ _ _ _ | .ternary _ _ _ _ | .new _ _ _
  | .field _ _ _ | .call _ _ _ _ | .cast _ _ _ | .instanceOf _ _ _ | .group _ _ => by
    rw [flatten_of_topOp? rfl]
    exact .refl _
  | .binary lhs op rhs span => by
    rw [flatten, leftNested_join]
    exact (Renested.binary op span (renested_flatten lhs) (renested_flatten rhs)).trans
      (renested_before _ op span _ _)

/-- Where regrouping rotates the operands of an expression, it rotates the expression. -/
theorem renested_regroup_of_operands {e : Expr}
    (h : ∀ x ∈ e.flatten.operands, x.Renested x.regroup) : e.Renested e.regroup := by
  have hregrouped := renested_flatten e.regroup
  rw [flatten_regroup] at hregrouped
  exact ((renested_flatten e).trans (renested_leftNested h)).trans hregrouped.symm

/-- An operand is the only operand of its own chain. -/
theorem renested_of_topOp? {e : Expr} (h : e.topOp? = none) (hr : e.Renested e.regroup) :
    ∀ x ∈ e.flatten.operands, x.Renested x.regroup := by
  intro x hx
  rw [flatten_of_topOp? h, operands_single, List.mem_singleton] at hx
  rw [hx]
  exact hr

theorem regroup_of_chain {e e' : Expr} (h : e.chain = .single e') : e.regroup = e' := by
  rw [regroup, h, rebuild_single]

mutual

/-- Regrouping an operand of an expression does nothing but rotate inside it. -/
theorem operands_renested : ∀ e : Expr, ∀ x ∈ e.flatten.operands, x.Renested x.regroup
  | .binary lhs op rhs span => by
    intro x hx
    rw [flatten, operands_join, List.mem_append] at hx
    rcases hx with hx | hx
    · exact operands_renested lhs x hx
    · exact operands_renested rhs x hx
  | .literal value span => renested_of_topOp? rfl (by
      rw [regroup_of_chain (by rw [chain])]
      exact .refl _)
  | .var name => renested_of_topOp? rfl (by
      rw [regroup_of_chain (by rw [chain])]
      exact .refl _)
  | .unary op e span => renested_of_topOp? rfl (by
      rw [regroup_of_chain (by rw [chain])]
      exact .unary op span (renested_regroup_of_operands (operands_renested e)))
  | .step op before e span => renested_of_topOp? rfl (by
      rw [regroup_of_chain (by rw [chain])]
      exact .step op before span (renested_regroup_of_operands (operands_renested e)))
  | .ternary c a b span => renested_of_topOp? rfl (by
      rw [regroup_of_chain (by rw [chain])]
      exact .ternary span (renested_regroup_of_operands (operands_renested c))
        (renested_regroup_of_operands (operands_renested a))
        (renested_regroup_of_operands (operands_renested b)))
  | .new ty args span => renested_of_topOp? rfl (by
      rw [regroup_of_chain (by rw [chain])]
      exact .new ty span (allRenested_regroupAll args))
  | .field e name span => renested_of_topOp? rfl (by
      rw [regroup_of_chain (by rw [chain])]
      exact .field name span (renested_regroup_of_operands (operands_renested e)))
  | .call e method args span => renested_of_topOp? rfl (by
      rw [regroup_of_chain (by rw [chain])]
      exact .call method span (renested_regroup_of_operands (operands_renested e))
        (allRenested_regroupAll args))
  | .cast ty e span => renested_of_topOp? rfl (by
      rw [regroup_of_chain (by rw [chain])]
      exact .cast ty span (renested_regroup_of_operands (operands_renested e)))
  | .instanceOf e ty span => renested_of_topOp? rfl (by
      rw [regroup_of_chain (by rw [chain])]
      exact .instanceOf ty span (renested_regroup_of_operands (operands_renested e)))
  | .group e span => renested_of_topOp? rfl (by
      rw [regroup_of_chain (by rw [chain])]
      exact .group span (renested_regroup_of_operands (operands_renested e)))

theorem allRenested_regroupAll : ∀ es : List Expr, AllRenested es (regroupAll es)
  | [] => by rw [regroupAll]; exact .nil
  | e :: rest => by
    rw [regroupAll]
    exact .cons (renested_regroup_of_operands (operands_renested e)) (allRenested_regroupAll rest)

end

/-- Regrouping does nothing but rotate. -/
theorem renested_regroup (e : Expr) : e.Renested e.regroup :=
  renested_regroup_of_operands (operands_renested e)

mutual

/-- Rotations do not change what regrouping gives. -/
theorem Renested.regroup_eq : ∀ {e e' : Expr}, e.Renested e' → e.regroup = e'.regroup
  | _, _, .rotate a o s b p t c => regroup_eq_of_flatten (by
      simp only [flatten, map_join]
      simp [join])
  | _, _, .refl _ => rfl
  | _, _, .symm h => h.regroup_eq.symm
  | _, _, .trans h h' => h.regroup_eq.trans h'.regroup_eq
  | _, _, .binary op span hl hr => by
    have hlhs := congrArg flatten hl.regroup_eq
    have hrhs := congrArg flatten hr.regroup_eq
    rw [flatten_regroup, flatten_regroup] at hlhs hrhs
    exact regroup_eq_of_flatten (by rw [flatten, flatten, map_join, map_join, hlhs, hrhs])
  | _, _, .unary op span h => by
    simp only [regroup, chain, rebuild_single]
    rw [← regroup, ← regroup, h.regroup_eq]
  | _, _, .step op before span h => by
    simp only [regroup, chain, rebuild_single]
    rw [← regroup, ← regroup, h.regroup_eq]
  | _, _, .ternary span hc ha hb => by
    simp only [regroup, chain, rebuild_single]
    rw [← regroup, ← regroup, ← regroup, ← regroup, ← regroup, ← regroup, hc.regroup_eq,
      ha.regroup_eq, hb.regroup_eq]
  | _, _, .new ty span h => by
    simp only [regroup, chain, rebuild_single, h.regroupAll_eq]
  | _, _, .field name span h => by
    simp only [regroup, chain, rebuild_single]
    rw [← regroup, ← regroup, h.regroup_eq]
  | _, _, .call method span h hargs => by
    simp only [regroup, chain, rebuild_single, hargs.regroupAll_eq]
    rw [← regroup, ← regroup, h.regroup_eq]
  | _, _, .cast ty span h => by
    simp only [regroup, chain, rebuild_single]
    rw [← regroup, ← regroup, h.regroup_eq]
  | _, _, .instanceOf ty span h => by
    simp only [regroup, chain, rebuild_single]
    rw [← regroup, ← regroup, h.regroup_eq]
  | _, _, .group span h => by
    simp only [regroup, chain, rebuild_single]
    rw [← regroup, ← regroup, h.regroup_eq]

theorem AllRenested.regroupAll_eq : ∀ {es es' : List Expr}, AllRenested es es' →
    regroupAll es = regroupAll es'
  | _, _, .nil => rfl
  | _, _, .cons h hrest => by
    rw [regroupAll, regroupAll, ← regroup, ← regroup, h.regroup_eq, hrest.regroupAll_eq]

end

/-- Two expressions are regrouped alike exactly if they differ in the nesting of chains only. -/
theorem regroup_eq_iff_renested {e e' : Expr} : e.regroup = e'.regroup ↔ e.Renested e' := by
  refine ⟨fun h => ?_, Renested.regroup_eq⟩
  have he' := (renested_regroup e').symm
  rw [← h] at he'
  exact (renested_regroup e).trans he'

/-- Two expressions are regrouped alike exactly if their chains have the same operators and operands
that are regrouped alike. -/
theorem regroup_eq_iff_flatten {e e' : Expr} : e.regroup = e'.regroup ↔
    e.flatten.operators = e'.flatten.operators ∧
      e.flatten.operands.map regroup = e'.flatten.operands.map regroup := by
  constructor
  · intro h
    have hflat := congrArg flatten h
    rw [flatten_regroup, flatten_regroup] at hflat
    exact ⟨by simpa using congrArg operators hflat, by simpa using congrArg operands hflat⟩
  · rintro ⟨hop, hopd⟩
    exact regroup_eq_of_flatten (ext_of_operands (by simpa using hop) (by simpa using hopd))

theorem regroup_eq_self_iff {e : Expr} : e.regroup = e ↔ e.Grouped :=
  ⟨fun h => h ▸ grouped_regroup e, regroup_of_grouped⟩

end Expr

/-! ## Programs -/

mutual

/-- Two statements that differ in the nesting of chains only. -/
inductive Stmt.Renested : Stmt → Stmt → Prop
  | localVariable {v v' : Option Expr} (ty : TypeExpr) (name : Identifier) (span : Span) :
      Option.Rel Expr.Renested v v' →
      Renested (.localVariable ty name v span) (.localVariable ty name v' span)
  | assign {e e' : Expr} (target : Identifier) (op : AssignOp) (span : Span) :
      e.Renested e' → Renested (.assign target op e span) (.assign target op e' span)
  | fieldAssign {r r' e e' : Expr} (field : Identifier) (op : AssignOp) (span : Span) :
      r.Renested r' → e.Renested e' →
      Renested (.fieldAssign r field op e span) (.fieldAssign r' field op e' span)
  | expression {e e' : Expr} (span : Span) :
      e.Renested e' → Renested (.expression e span) (.expression e' span)
  | ifThen {c c' : Expr} {a a' : List Stmt} (span : Span) :
      c.Renested c' → AllRenested a a' → Renested (.ifElse c a none span) (.ifElse c' a' none span)
  | ifElse {c c' : Expr} {a a' b b' : List Stmt} (span : Span) :
      c.Renested c' → AllRenested a a' → AllRenested b b' →
      Renested (.ifElse c a (some b) span) (.ifElse c' a' (some b') span)
  | whileLoop {c c' : Expr} {b b' : List Stmt} (span : Span) :
      c.Renested c' → AllRenested b b' → Renested (.whileLoop c b span) (.whileLoop c' b' span)
  | forLoop {i i' : Stmt} {c c' : Expr} {u u' : Stmt} {b b' : List Stmt} (span : Span) :
      Renested i i' → c.Renested c' → Renested u u' → AllRenested b b' →
      Renested (.forLoop i c u b span) (.forLoop i' c' u' b' span)
  | returns {v v' : Option Expr} (span : Span) :
      Option.Rel Expr.Renested v v' → Renested (.returns v span) (.returns v' span)
  | block {b b' : List Stmt} (span : Span) :
      AllRenested b b' → Renested (.block b span) (.block b' span)

/-- Two lists of such statements. -/
inductive Stmt.AllRenested : List Stmt → List Stmt → Prop
  | nil : AllRenested [] []
  | cons {s s' : Stmt} {ss ss' : List Stmt} :
      Renested s s' → AllRenested ss ss' → AllRenested (s :: ss) (s' :: ss')

end

namespace Stmt

theorem renested_map : ∀ e : Option Expr, Option.Rel Expr.Renested e (e.map Expr.regroup)
  | none => .none
  | some e => .some e.renested_regroup

mutual

theorem renested_regroup : ∀ s : Stmt, s.Renested s.regroup
  | localVariable ty name value span => by
    rw [regroup]
    exact .localVariable ty name span (renested_map value)
  | assign target op e span => by
    rw [regroup]
    exact .assign target op span e.renested_regroup
  | fieldAssign receiver field op e span => by
    rw [regroup]
    exact .fieldAssign field op span receiver.renested_regroup e.renested_regroup
  | expression e span => by
    rw [regroup]
    exact .expression span e.renested_regroup
  | ifElse c thenBranch none span => by
    rw [regroup]
    exact .ifThen span c.renested_regroup (allRenested_regroupAll thenBranch)
  | ifElse c thenBranch (some elseBranch) span => by
    rw [regroup]
    exact .ifElse span c.renested_regroup (allRenested_regroupAll thenBranch)
      (allRenested_regroupAll elseBranch)
  | whileLoop c body span => by
    rw [regroup]
    exact .whileLoop span c.renested_regroup (allRenested_regroupAll body)
  | forLoop init c update body span => by
    rw [regroup]
    exact .forLoop span init.renested_regroup c.renested_regroup update.renested_regroup
      (allRenested_regroupAll body)
  | returns value span => by
    rw [regroup]
    exact .returns span (renested_map value)
  | block body span => by
    rw [regroup]
    exact .block span (allRenested_regroupAll body)

theorem allRenested_regroupAll : ∀ ss : List Stmt, AllRenested ss (regroupAll ss)
  | [] => by rw [regroupAll]; exact .nil
  | s :: rest => by
    rw [regroupAll]
    exact .cons s.renested_regroup (allRenested_regroupAll rest)

end

end Stmt

/-- Two constructors that differ in the nesting of chains only. -/
structure ConstructorDecl.Renested (c c' : ConstructorDecl) : Prop where
  parameters : c'.parameters = c.parameters
  superArguments : Option.Rel Expr.AllRenested c.superArguments c'.superArguments
  body : Stmt.AllRenested c.body c'.body
  span : c'.span = c.span

/-- Two methods that differ in the nesting of chains only. -/
structure MethodDecl.Renested (m m' : MethodDecl) : Prop where
  heading : m' = { m with body := m'.body }
  body : Stmt.AllRenested m.body m'.body

/-- Two classes that differ in the nesting of chains only. -/
structure ClassDecl.Renested (c c' : ClassDecl) : Prop where
  heading : c' = { c with constructors := c'.constructors, methods := c'.methods }
  constructors : List.Forall₂ ConstructorDecl.Renested c.constructors c'.constructors
  methods : List.Forall₂ MethodDecl.Renested c.methods c'.methods

/-- Two programs that differ in the nesting of chains only. -/
structure Program.Renested (p p' : Program) : Prop where
  heading : p' = { p with classes := p'.classes }
  classes : List.Forall₂ ClassDecl.Renested p.classes p'.classes

theorem ConstructorDecl.renested_regroup (c : ConstructorDecl) : c.Renested c.regroup where
  parameters := rfl
  superArguments := by
    rw [ConstructorDecl.regroup]
    cases c.superArguments with
    | none => exact .none
    | some es =>
      rw [Option.map_some, ← Expr.regroupAll_eq_map]
      exact .some (Expr.allRenested_regroupAll es)
  body := Stmt.allRenested_regroupAll c.body
  span := rfl

theorem MethodDecl.renested_regroup (m : MethodDecl) : m.Renested m.regroup :=
  ⟨rfl, Stmt.allRenested_regroupAll m.body⟩

theorem ClassDecl.renested_regroup (c : ClassDecl) : c.Renested c.regroup :=
  ⟨rfl, forall₂_map_self ConstructorDecl.renested_regroup _,
    forall₂_map_self MethodDecl.renested_regroup _⟩

theorem Program.renested_regroup (p : Program) : p.Renested p.regroup :=
  ⟨rfl, forall₂_map_self ClassDecl.renested_regroup _⟩

/-- Regrouping is canonical: two expressions are regrouped alike exactly if their chains have the
same operators and operands that are regrouped alike, which is to say that they differ in the nesting
of chains only. What regrouping leaves alone is what is grouped, regrouping twice is regrouping once,
and in a whole program nothing but the nesting of chains changes. -/
theorem regroup_canonical :
    (∀ e e' : Expr, e.regroup = e'.regroup ↔
      e.flatten.operators = e'.flatten.operators ∧
        e.flatten.operands.map Expr.regroup = e'.flatten.operands.map Expr.regroup) ∧
    (∀ e e' : Expr, e.regroup = e'.regroup ↔ e.Renested e') ∧
    (∀ e : Expr, e.regroup = e ↔ e.Grouped) ∧
    (∀ e : Expr, e.regroup.regroup = e.regroup) ∧
    (∀ p : Program, p.regroup.regroup = p.regroup) ∧
    (∀ p : Program, p.Renested p.regroup) :=
  ⟨fun _ _ => Expr.regroup_eq_iff_flatten, fun _ _ => Expr.regroup_eq_iff_renested,
    fun _ => Expr.regroup_eq_self_iff, Expr.regroup_regroup, Program.regroup_regroup,
    Program.renested_regroup⟩

end Middleweight
