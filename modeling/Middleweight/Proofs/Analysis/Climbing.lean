import Middleweight.Engine.Eval
import Middleweight.Native.Standard
import Middleweight.Proofs.Analysis.Chains
import Middleweight.Syntax.Build

/-!
# Regrouped chains evaluate as precedence climbing does

Precedence climbing needs no tree: it reads the operands and operators of a chain from left to right
and carries out each operator as soon as its operands have their values. For the right operand of an
operator it climbs on, over the operators that bind tighter.

Over the chain of a grouped expression it carries out the operators that are in the expression, from
the leaves up. Regrouping gives a grouped expression with the same chain, however it was nested, so
what a regrouped chain evaluates to is what climbing over the flat chain gives, and where an
operation has no result both stop with its error.

* `climb` : precedence climbing
* `Expr.climb_flatten` : climbing over the chain of a grouped expression
* `regrouped_chain_evaluates_by_climbing` : regrouped chains of integers
-/

namespace Middleweight

variable {F : Type}

/-! ## Precedence climbing -/

/-- Climbing, together with the fact that it leaves no more than what there was. -/
def climbWithin (min : Nat) (lhs : Value F) : (rest : List (BinaryOp × Value F)) →
    Except (OperatorError F) (Value F × { later : List (BinaryOp × Value F) //
      later.length ≤ rest.length })
  | [] => .ok (lhs, ⟨[], Nat.le_refl _⟩)
  | (op, operand) :: rest =>
    if op.precedence < min then .ok (lhs, ⟨(op, operand) :: rest, Nat.le_refl _⟩)
    else do
      let (rhs, ⟨behind, hbehind⟩) ← climbWithin (op.precedence + 1) operand rest
      let value ← op.apply lhs rhs
      let (value, ⟨later, hlater⟩) ← climbWithin min value behind
      return (value, ⟨later, Nat.le_trans hlater (Nat.le_succ_of_le hbehind)⟩)
termination_by rest => rest.length

/-- Carries out the operators in front of which none binds looser than a given precedence; gives the
value and what is left of the chain. -/
def climb (min : Nat) (lhs : Value F) (rest : List (BinaryOp × Value F)) :
    Except (OperatorError F) (Value F × List (BinaryOp × Value F)) :=
  (climbWithin min lhs rest).map fun r => (r.1, r.2.1)

@[simp] theorem climb_nil (min : Nat) (lhs : Value F) : climb min lhs [] = .ok (lhs, []) := by
  rw [climb, climbWithin]
  rfl

theorem climb_of_lt {min : Nat} {op : BinaryOp} (h : op.precedence < min) (lhs operand : Value F)
    (rest : List (BinaryOp × Value F)) :
    climb min lhs ((op, operand) :: rest) = .ok (lhs, (op, operand) :: rest) := by
  rw [climb, climbWithin, if_pos h]
  rfl

/-- An operator that is not too loose: its right operand, its result, and the chain from there. -/
theorem climb_of_le {min : Nat} {op : BinaryOp} (h : min ≤ op.precedence) (lhs operand : Value F)
    (rest : List (BinaryOp × Value F)) :
    climb min lhs ((op, operand) :: rest) = (do
      let (rhs, behind) ← climb (op.precedence + 1) operand rest
      let value ← op.apply lhs rhs
      climb min value behind) := by
  rw [climb, climbWithin, if_neg (by omega), climb]
  cases climbWithin (op.precedence + 1) operand rest with
  | error e => rfl
  | ok r =>
    obtain ⟨rhs, behind, hbehind⟩ := r
    show (op.apply lhs rhs >>= _ : Except _ _).map _ = op.apply lhs rhs >>= _
    cases op.apply lhs rhs with
    | error e => rfl
    | ok value =>
      show (climbWithin min value behind >>= _ : Except _ _).map _ = climb min value behind
      rw [climb]
      cases climbWithin min value behind <;> rfl

/-- Climbing ends where the chain goes on with an operator that is too loose. -/
theorem climb_of_head {min : Nat} {rest : List (BinaryOp × Value F)}
    (h : ∀ l ∈ rest.head?, l.1.precedence < min) (lhs : Value F) :
    climb min lhs rest = .ok (lhs, rest) := by
  cases rest with
  | nil => exact climb_nil min lhs
  | cons l rest => exact climb_of_lt (h l (by simp)) lhs l.2 rest

/-- Precedence climbing over a list of integers and the operators between them. -/
def evaluateByClimbing (first : Int64) (others : List Int64) (operators : List BinaryOp) :
    Except (OperatorError F) (Value F) :=
  (climb 0 (.int first) (operators.zip (others.map .int))).map Prod.fst

/-! ## Trees -/

/-- What an expression of literals and operators evaluates to, if it is one. -/
def Expr.constant : Expr → Option (Except (OperatorError F) (Value F))
  | literal value _ => some (.ok (Engine.literalValue value))
  | group e _ => e.constant
  | binary lhs op rhs _ => do
    let l ← lhs.constant
    let r ← rhs.constant
    return do
      let a ← l
      let b ← r
      op.apply a b
  | _ => none

/-- The operators of a chain, each with the value of the operand on its right. -/
def Chain.values (val : Expr → Value F) (c : Chain) : List (BinaryOp × Value F) :=
  c.links.map fun l => (l.op, val l.operand)

namespace Expr

open Chain

theorem values_join (val : Expr → Value F) (l : Chain) (op : BinaryOp) (span : Span) (r : Chain) :
    (l.join op span r).values val = l.values val ++ (op, val r.first) :: r.values val := by
  simp [Chain.values, join]

/-- An operator of a precedence may follow an expression whose own operator binds at least as tight. -/
def FitsNext (e : Expr) (rest : List (BinaryOp × Value F)) : Prop :=
  ∀ l ∈ rest.head?, e.FitsLeft l.1

/-- Climbing over the chain of a grouped expression, with whatever comes behind it: the expression is
evaluated, and climbing goes on behind it. -/
theorem climb_flatten {val : Expr → Value F} : ∀ {e : Expr}, e.Grouped →
    (∀ x ∈ e.flatten.operands, x.constant = some (.ok (val x))) →
    ∃ result : Except (OperatorError F) (Value F), e.constant = some result ∧
      ∀ (min : Nat) (rest : List (BinaryOp × Value F)),
        (∀ o, e.topOp? = some o → min ≤ o.precedence) → e.FitsNext rest →
        climb min (val e.flatten.first) (e.flatten.values val ++ rest) =
          result >>= fun v => climb min v rest
  | literal _ _, _, h | var _, _, h | unary _ _ _, _, h | step _ _ _ _, _, h
  | ternary _ _ _ _, _, h | new _ _ _, _, h | field _ _ _, _, h | call _ _ _ _, _, h
  | cast _ _ _, _, h | instanceOf _ _ _, _, h | group _ _, _, h =>
    ⟨_, h _ (by rw [flatten_of_topOp? rfl, operands_single, List.mem_singleton]), fun _ _ _ _ => rfl⟩
  | binary lhs op rhs span, hg, h => by
    rw [Grouped] at hg
    obtain ⟨hgl, hgr, hfl, hfr⟩ := hg
    rw [flatten, operands_join] at h
    obtain ⟨l, hl, hclimbl⟩ := climb_flatten hgl fun x hx => h x (List.mem_append_left _ hx)
    obtain ⟨r, hr, hclimbr⟩ := climb_flatten hgr fun x hx => h x (List.mem_append_right _ hx)
    refine ⟨l >>= fun a => r >>= fun b => op.apply a b, by rw [constant, hl, hr]; rfl, ?_⟩
    intro min rest hmin hrest
    have hop : min ≤ op.precedence := hmin op rfl
    have hloose : ∀ k ∈ rest.head?, k.1.precedence ≤ op.precedence :=
      fun k hk => fitsLeft_binary.mp (hrest k hk)
    rw [flatten, values_join, List.append_assoc, List.cons_append]
    show climb min (val lhs.flatten.first) _ = _
    rw [hclimbl min _ (fun o ho => Nat.le_trans hop (hfl o ho)) (by rintro k ⟨⟩; exact hfl), bind_assoc]
    refine bind_congr fun a => ?_
    -- The right operand is climbed over up to the operator behind it, which is no tighter.
    rw [climb_of_le hop, hclimbr (op.precedence + 1) rest (fun o ho => hfr o ho)
      (fun k hk o ho => Nat.le_trans (hloose k hk) (Nat.le_of_lt (hfr o ho))), bind_assoc, bind_assoc]
    refine bind_congr fun b => ?_
    rw [climb_of_head (fun k hk => Nat.lt_succ_of_le (hloose k hk))]
    rfl

/-- A grouped expression with operands of known values evaluates as climbing over its chain does. -/
theorem constant_of_grouped {val : Expr → Value F} {e : Expr} (hg : e.Grouped)
    (h : ∀ x ∈ e.flatten.operands, x.constant = some (.ok (val x))) :
    e.constant = some ((climb 0 (val e.flatten.first) (e.flatten.values val)).map Prod.fst) := by
  obtain ⟨result, hresult, hclimb⟩ := climb_flatten hg h
  have hall := hclimb 0 [] (fun _ _ => Nat.zero_le _) (by rintro k ⟨⟩)
  rw [List.append_nil] at hall
  rw [hresult, hall]
  cases result with
  | error e => rfl
  | ok v =>
    show _ = some ((climb 0 v []).map Prod.fst)
    rw [climb_nil]
    rfl

/-! ## Chains of integers -/

/-- The trees that nest a chain of integers, given with the operators between them. -/
inductive Nests : List Int64 → List BinaryOp → Expr → Prop
  | leaf (n : Int64) (span : Span) : Nests [n] [] (literal (.int n) span)
  | node {ns ns' : List Int64} {ops ops' : List BinaryOp} {lhs rhs : Expr} (op : BinaryOp)
      (span : Span) : Nests ns ops lhs → Nests ns' ops' rhs →
      Nests (ns ++ ns') (ops ++ op :: ops') (binary lhs op rhs span)

/-- The integer that an operand of such a chain is. -/
def integer : Expr → Int64
  | literal (.int n) _ => n
  | _ => 0

/-- What a tree reads as from left to right are the integers and the operators that it nests. -/
theorem Nests.flatten {ns : List Int64} {ops : List BinaryOp} {e : Expr} (h : e.Nests ns ops) :
    (∀ x ∈ e.flatten.operands, ∃ k span, x = literal (.int k) span) ∧
      e.flatten.operands.map integer = ns ∧ e.flatten.operators.map Prod.fst = ops := by
  induction h with
  | leaf n span => exact ⟨fun x hx => ⟨n, span, List.mem_singleton.mp hx⟩, rfl, rfl⟩
  | node op span _ _ ihl ihr =>
    obtain ⟨hl, rfl, rfl⟩ := ihl
    obtain ⟨hr, rfl, rfl⟩ := ihr
    refine ⟨fun x hx => ?_, by simp [Expr.flatten], by simp [Expr.flatten, join, operators]⟩
    rw [Expr.flatten, operands_join, List.mem_append] at hx
    exact hx.elim (hl x) (hr x)

/-- Regrouping moves the integers of a chain to no other place of the chain. -/
theorem Nests.flatten_regroup {ns : List Int64} {ops : List BinaryOp} {e : Expr}
    (h : e.Nests ns ops) : e.regroup.flatten = e.flatten := by
  have hsame : e.flatten.operands.map regroup = e.flatten.operands := by
    refine (List.map_congr_left fun x hx => ?_).trans (List.map_id _)
    obtain ⟨k, span, rfl⟩ := h.flatten.1 x hx
    exact regroup_of_chain (by rw [chain]; rfl)
  rw [Expr.flatten_regroup]
  exact ext_of_operands (operators_map _ _) (by rw [operands_map, hsame])

end Expr

open Middleweight.Expr Chain in
/-- However a chain of integers is nested: after regrouping it evaluates as precedence climbing over
the integers and the operators does, to the same value or to the error of the same operation. -/
theorem regrouped_chain_evaluates_by_climbing {first : Int64} {others : List Int64}
    {operators : List BinaryOp} {e : Expr} (h : e.Nests (first :: others) operators) :
    e.regroup.constant (F := F) = some (evaluateByClimbing first others operators) := by
  obtain ⟨hint, hints, hoperators⟩ := h.flatten
  obtain ⟨hfirst, hothers⟩ := List.cons.inj hints
  have hval : ∀ x ∈ e.regroup.flatten.operands,
      x.constant (F := F) = some (.ok (.int x.integer)) := by
    intro x hx
    rw [h.flatten_regroup] at hx
    obtain ⟨k, span, rfl⟩ := hint x hx
    rfl
  have hvalues : e.flatten.values (F := F) (fun x => .int x.integer) =
      operators.zip (others.map .int) := by
    rw [← hothers, ← hoperators, Chain.operators, List.map_map, List.map_map, List.map_map,
      List.zip_map']
    rfl
  rw [constant_of_grouped (grouped_regroup e) hval, h.flatten_regroup, hvalues, hfirst]
  rfl

open Build in
/-- `6 / 0 + 1` nested to the right: as it stands it has a value, regrouped it divides by zero. -/
theorem evaluates_by_climbing_of_right_nested :
    ∃ e : Expr, e.Nests [6, 0, 1] [.div, .add] ∧
      e.constant (F := StandardFn) = some (.ok (.int 6)) ∧
      e.regroup.constant (F := StandardFn) = some (.error .divisionByZero) ∧
      evaluateByClimbing (F := StandardFn) 6 [0, 1] [.div, .add] = .error .divisionByZero := by
  have hnests : Expr.Nests [6, 0, 1] [.div, .add]
      (binary (int 6) .div (binary (int 0) .add (int 1))) :=
    .node .div {} (.leaf 6 {}) (.node .add {} (.leaf 0 {}) (.leaf 1 {}))
  refine ⟨_, hnests, rfl, rfl, ?_⟩
  exact (Option.some.inj (regrouped_chain_evaluates_by_climbing hnests)).symm

end Middleweight
