import Middleweight.Analysis.Expand
import Middleweight.Proofs.Analysis.Chains

/-!
# Expansion commutes with regrouping

Expansion meets the operands of a chain from left to right, however the chain is nested. So a rotation
of a chain does not change which type is the first one that is wrong, and where no type is wrong the
results differ by the same rotation. Expansion also keeps the operators and with them the grouping.
Regrouping does nothing but rotate, and a grouped expression is determined by what it is a rotation
of, so the two passes can be exchanged.

* `Expr.Renested.expand` : rotated expressions are expanded alike
* `Expr.grouped_expand` : an expanded expression is grouped if it was
* `Program.expand_regroup` : expansion of a regrouped program
* `Program.expand_commutes_with_regroup` : the same, for objections and for results
-/

namespace Middleweight

variable {F : Type} {t : ClassTable F} {g : List String}

/-! ## Results that go wrong alike -/

/-- Two results of analysis: the same objection, or two related values. -/
inductive Checked.Alike {α β : Type} (R : α → β → Prop) : Checked α → Checked β → Prop
  | error (f : Finding) : Alike R (.error f) (.error f)
  | ok {a : α} {b : β} : R a b → Alike R (.ok a) (.ok b)

namespace Checked.Alike

variable {α β γ δ : Type} {R : α → β → Prop} {S : γ → δ → Prop}

theorem of_refl {R : α → α → Prop} (h : ∀ a, R a a) : ∀ x : Checked α, Alike R x x
  | .error f => .error f
  | .ok a => .ok (h a)

theorem symm {R : α → α → Prop} (h : ∀ {a b}, R a b → R b a) {x y : Checked α} :
    Alike R x y → Alike R y x
  | .error f => .error f
  | .ok hab => .ok (h hab)

theorem trans {R : α → α → Prop} (h : ∀ {a b c}, R a b → R b c → R a c) {x y z : Checked α} :
    Alike R x y → Alike R y z → Alike R x z
  | .error f, .error _ => .error f
  | .ok hab, .ok hbc => .ok (h hab hbc)

/-- Checks that go wrong alike may be followed by checks that do. -/
theorem bind {x : Checked α} {y : Checked β} {f : α → Checked γ} {k : β → Checked δ}
    (h : Alike R x y) (hf : ∀ {a b}, R a b → Alike S (f a) (k b)) :
    Alike S (x >>= f) (y >>= k) := by
  cases h with
  | error e => exact .error e
  | ok hab => exact hf hab

/-- The same computation first. -/
theorem after (x : Checked α) {f : α → Checked γ} {k : α → Checked δ}
    (hf : ∀ a, Alike S (f a) (k a)) : Alike S (x >>= f) (x >>= k) :=
  bind (of_refl (R := Eq) (fun _ => rfl) x) fun {a _} hab => hab ▸ hf a

end Checked.Alike

/-! ## Expressions -/

namespace Expr

open Checked

mutual

/-- However chains are nested, expansion objects to the same type or gives the same operands. -/
theorem Renested.expand : ∀ {e e' : Expr}, e.Renested e' →
    Alike Renested (e.expand t g) (e'.expand t g)
  | _, _, .rotate a o s b p s' c => by
    simp only [Expr.expand, bind_assoc, pure_bind]
    exact .after _ fun a => .after _ fun b => .after _ fun c => .ok (.rotate a o s b p s' c)
  | _, _, .refl e => .of_refl .refl _
  | _, _, .symm h => h.expand.symm .symm
  | _, _, .trans h h' => h.expand.trans .trans h'.expand
  | _, _, .binary op span hl hr => by
    rw [Expr.expand, Expr.expand]
    exact hl.expand.bind fun hl => hr.expand.bind fun hr => .ok (.binary op span hl hr)
  | _, _, .unary op span h => by
    rw [Expr.expand, Expr.expand]
    exact h.expand.bind fun h => .ok (.unary op span h)
  | _, _, .step op before span h => by
    rw [Expr.expand, Expr.expand]
    exact h.expand.bind fun h => .ok (.step op before span h)
  | _, _, .ternary span hc ha hb => by
    rw [Expr.expand, Expr.expand]
    exact hc.expand.bind fun hc => ha.expand.bind fun ha => hb.expand.bind fun hb =>
      .ok (.ternary span hc ha hb)
  | _, _, .new ty span h => by
    rw [Expr.expand, Expr.expand]
    exact .after _ fun ty => h.expandAll.bind fun h => .ok (.new ty span h)
  | _, _, .field name span h => by
    rw [Expr.expand, Expr.expand]
    exact h.expand.bind fun h => .ok (.field name span h)
  | _, _, .call method span h hargs => by
    rw [Expr.expand, Expr.expand]
    exact h.expand.bind fun h => hargs.expandAll.bind fun hargs => .ok (.call method span h hargs)
  | _, _, .cast ty span h => by
    rw [Expr.expand, Expr.expand]
    exact .after _ fun ty => h.expand.bind fun h => .ok (.cast ty span h)
  | _, _, .instanceOf ty span h => by
    rw [Expr.expand, Expr.expand]
    exact .after _ fun ty => h.expand.bind fun h => .ok (.instanceOf ty span h)
  | _, _, .group span h => by
    rw [Expr.expand, Expr.expand]
    exact h.expand.bind fun h => .ok (.group span h)

theorem AllRenested.expandAll : ∀ {es es' : List Expr}, AllRenested es es' →
    Alike AllRenested (Expr.expandAll t g es) (Expr.expandAll t g es')
  | _, _, .nil => by
    rw [Expr.expandAll]
    exact .ok .nil
  | _, _, .cons h hrest => by
    rw [Expr.expandAll, Expr.expandAll]
    exact h.expand.bind fun h => hrest.expandAll.bind fun hrest => .ok (.cons h hrest)

end

/-- Expansion keeps the operator on top. -/
theorem topOp?_expand {e e' : Expr} (h : e.expand t g = .ok e') : e'.topOp? = e.topOp? := by
  cases e with
  | literal | var =>
    rw [expand] at h
    cases h
    rfl
  | unary | step | field | group =>
    rw [expand] at h
    obtain ⟨_, -, h⟩ := ok_of_bind h
    cases h
    rfl
  | binary | new | call | cast | instanceOf =>
    rw [expand] at h
    obtain ⟨_, -, h⟩ := ok_of_bind h
    obtain ⟨_, -, h⟩ := ok_of_bind h
    cases h
    rfl
  | ternary =>
    rw [expand] at h
    obtain ⟨_, -, h⟩ := ok_of_bind h
    obtain ⟨_, -, h⟩ := ok_of_bind h
    obtain ⟨_, -, h⟩ := ok_of_bind h
    cases h
    rfl

mutual

/-- Expansion keeps an expression grouped. -/
theorem grouped_expand : ∀ {e e' : Expr}, e.Grouped → e.expand t g = .ok e' → e'.Grouped
  | literal _ _, _, hg, h => by
    rw [expand] at h
    cases h
    exact hg
  | var _, _, hg, h => by
    rw [expand] at h
    cases h
    exact hg
  | binary lhs op rhs span, _, hg, h => by
    rw [Grouped] at hg
    rw [expand] at h
    obtain ⟨lhs', hl, h⟩ := ok_of_bind h
    obtain ⟨rhs', hr, h⟩ := ok_of_bind h
    cases h
    rw [Grouped, FitsLeft, FitsRight, topOp?_expand hl, topOp?_expand hr]
    exact ⟨grouped_expand hg.1 hl, grouped_expand hg.2.1 hr, hg.2.2⟩
  | unary _ e _, _, hg, h => by
    rw [Grouped] at hg
    rw [expand] at h
    obtain ⟨e', he, h⟩ := ok_of_bind h
    cases h
    rw [Grouped]
    exact grouped_expand hg he
  | step _ _ e _, _, hg, h => by
    rw [Grouped] at hg
    rw [expand] at h
    obtain ⟨e', he, h⟩ := ok_of_bind h
    cases h
    rw [Grouped]
    exact grouped_expand hg he
  | ternary c a b _, _, hg, h => by
    rw [Grouped] at hg
    rw [expand] at h
    obtain ⟨c', hc, h⟩ := ok_of_bind h
    obtain ⟨a', ha, h⟩ := ok_of_bind h
    obtain ⟨b', hb, h⟩ := ok_of_bind h
    cases h
    rw [Grouped]
    exact ⟨grouped_expand hg.1 hc, grouped_expand hg.2.1 ha, grouped_expand hg.2.2 hb⟩
  | new _ args _, _, hg, h => by
    rw [Grouped] at hg
    rw [expand] at h
    obtain ⟨ty', -, h⟩ := ok_of_bind h
    obtain ⟨args', hargs, h⟩ := ok_of_bind h
    cases h
    rw [Grouped]
    exact allGrouped_expandAll hg hargs
  | field e _ _, _, hg, h => by
    rw [Grouped] at hg
    rw [expand] at h
    obtain ⟨e', he, h⟩ := ok_of_bind h
    cases h
    rw [Grouped]
    exact grouped_expand hg he
  | call e _ args _, _, hg, h => by
    rw [Grouped] at hg
    rw [expand] at h
    obtain ⟨e', he, h⟩ := ok_of_bind h
    obtain ⟨args', hargs, h⟩ := ok_of_bind h
    cases h
    rw [Grouped]
    exact ⟨grouped_expand hg.1 he, allGrouped_expandAll hg.2 hargs⟩
  | cast _ e _, _, hg, h => by
    rw [Grouped] at hg
    rw [expand] at h
    obtain ⟨ty', -, h⟩ := ok_of_bind h
    obtain ⟨e', he, h⟩ := ok_of_bind h
    cases h
    rw [Grouped]
    exact grouped_expand hg he
  | instanceOf e _ _, _, hg, h => by
    rw [Grouped] at hg
    rw [expand] at h
    obtain ⟨ty', -, h⟩ := ok_of_bind h
    obtain ⟨e', he, h⟩ := ok_of_bind h
    cases h
    rw [Grouped]
    exact grouped_expand hg he
  | group e _, _, hg, h => by
    rw [Grouped] at hg
    rw [expand] at h
    obtain ⟨e', he, h⟩ := ok_of_bind h
    cases h
    rw [Grouped]
    exact grouped_expand hg he

theorem allGrouped_expandAll : ∀ {es es' : List Expr}, AllGrouped es →
    expandAll t g es = .ok es' → AllGrouped es'
  | [], _, hg, h => by
    rw [expandAll] at h
    cases h
    exact hg
  | e :: rest, _, hg, h => by
    rw [AllGrouped] at hg
    rw [expandAll] at h
    obtain ⟨e', he, h⟩ := ok_of_bind h
    obtain ⟨rest', hrest, h⟩ := ok_of_bind h
    cases h
    rw [AllGrouped]
    exact ⟨grouped_expand hg.1 he, allGrouped_expandAll hg.2 hrest⟩

end

/-- A regrouped expression is expanded to the regrouped expansion, or meets the same objection. -/
theorem expand_regroup (e : Expr) : e.regroup.expand t g = (e.expand t g).map regroup := by
  have halike : Alike Renested (e.expand t g) (e.regroup.expand t g) := (renested_regroup e).expand
  have hgrouped : ∀ {x}, e.regroup.expand t g = .ok x → x.Grouped :=
    fun h => grouped_expand (grouped_regroup e) h
  generalize e.expand t g = before at halike
  generalize e.regroup.expand t g = after at halike hgrouped
  cases halike with
  | error f => rfl
  | @ok a b hab =>
    have hb : a.regroup = b := by rw [hab.regroup_eq, regroup_of_grouped (hgrouped rfl)]
    exact congrArg Except.ok hb.symm

end Expr

/-! ## Statements -/

namespace Checked

variable {α β γ : Type}

theorem bind_of_map (x : Checked α) (f : α → β) (k : β → Checked γ) :
    x.map f >>= k = x >>= fun a => k (f a) := by
  cases x <;> rfl

theorem map_of_bind (x : Checked α) (k : α → Checked β) (f : β → γ) :
    (x >>= k).map f = x >>= fun a => (k a).map f := by
  cases x <;> rfl

theorem map_of_pure (a : α) (f : α → β) : (pure a : Checked α).map f = pure (f a) := rfl

end Checked

namespace Expr

/-- The expressions of a list are regrouped one by one, before or after expansion. -/
theorem expandAll_regroup (es : List Expr) :
    expandAll t g (es.map regroup) = (expandAll t g es).map (List.map regroup) := by
  induction es with
  | nil =>
    rw [List.map_nil, expandAll]
    rfl
  | cons e rest ih =>
    simp only [List.map_cons, expandAll, expand_regroup, ih, Checked.bind_of_map,
      Checked.map_of_bind, Checked.map_of_pure]

theorem expandOption_regroup : ∀ e : Option Expr,
    expandOption t g (e.map regroup) = (expandOption t g e).map (Option.map regroup)
  | none => rfl
  | some e => by
    rw [Option.map_some, expandOption, expandOption, expand_regroup]
    cases e.expand t g <;> rfl

theorem expandSuper_regroup : ∀ es : Option (List Expr),
    expandSuper t g (es.map (List.map regroup)) =
      (expandSuper t g es).map (Option.map (List.map regroup))
  | none => rfl
  | some es => by
    rw [Option.map_some, expandSuper, expandSuper, expandAll_regroup]
    cases expandAll t g es <;> rfl

end Expr

namespace Stmt

open Checked

mutual

/-- A regrouped statement is expanded to the regrouped expansion, or meets the same objection. -/
theorem expand_regroup : ∀ s : Stmt, s.regroup.expand t g = (s.expand t g).map regroup
  | localVariable ty name value span => by
    simp only [regroup, expand, Expr.expandOption_regroup, bind_of_map, map_of_bind, map_of_pure]
  | assign target op e span => by
    simp only [regroup, expand, Expr.expand_regroup, bind_of_map, map_of_bind, map_of_pure]
  | fieldAssign receiver field op e span => by
    simp only [regroup, expand, Expr.expand_regroup, bind_of_map, map_of_bind, map_of_pure]
  | expression e span => by
    simp only [regroup, expand, Expr.expand_regroup, bind_of_map, map_of_bind, map_of_pure]
  | ifElse c thenBranch none span => by
    simp only [regroup, expand, Expr.expand_regroup, expandAll_regroupAll thenBranch, bind_of_map,
      map_of_bind, map_of_pure]
  | ifElse c thenBranch (some elseBranch) span => by
    simp only [regroup, expand, Expr.expand_regroup, expandAll_regroupAll thenBranch,
      expandAll_regroupAll elseBranch, bind_of_map, map_of_bind, map_of_pure]
  | whileLoop c body span => by
    simp only [regroup, expand, Expr.expand_regroup, expandAll_regroupAll body, bind_of_map,
      map_of_bind, map_of_pure]
  | forLoop init c update body span => by
    simp only [regroup, expand, expand_regroup init, Expr.expand_regroup, expand_regroup update,
      expandAll_regroupAll body, bind_of_map, map_of_bind, map_of_pure]
  | returns value span => by
    simp only [regroup, expand, Expr.expandOption_regroup, bind_of_map, map_of_bind, map_of_pure]
  | block body span => by
    simp only [regroup, expand, expandAll_regroupAll body, bind_of_map, map_of_bind, map_of_pure]

theorem expandAll_regroupAll : ∀ ss : List Stmt,
    expandAll t g (regroupAll ss) = (expandAll t g ss).map regroupAll
  | [] => by
    simp only [regroupAll, expandAll]
    rfl
  | s :: rest => by
    simp only [regroupAll, expandAll, expand_regroup s, expandAll_regroupAll rest, bind_of_map,
      map_of_bind, map_of_pure]

end

end Stmt

/-! ## Declarations -/

/-- Two passes that commute on each member of a list commute on the list. -/
theorem Checked.mapM_map {α β : Type} {f : α → α} {f' : β → β} {k : α → Checked β}
    (h : ∀ a, k (f a) = (k a).map f') (as : List α) :
    (as.map f).mapM k = (as.mapM k).map (List.map f') := by
  induction as with
  | nil => rfl
  | cons a rest ih =>
    simp only [List.map_cons, List.mapM_cons, h, ih, bind_of_map, map_of_bind, map_of_pure]

open Checked

/-- Constructors may be regrouped before or after expansion. -/
theorem ConstructorDecl.expand_regroup (c : ConstructorDecl) :
    c.regroup.expand t g = (c.expand t g).map ConstructorDecl.regroup := by
  simp only [ConstructorDecl.regroup, ConstructorDecl.expand, Expr.expandSuper_regroup,
    Stmt.expandAll_regroupAll, bind_of_map, map_of_bind, map_of_pure]

/-- Methods may be regrouped before or after expansion. -/
theorem MethodDecl.expand_regroup (m : MethodDecl) :
    m.regroup.expand t g = (m.expand t g).map MethodDecl.regroup := by
  have hvisible : m.regroup.visibleGenerics g = m.visibleGenerics g := rfl
  rw [MethodDecl.expand, hvisible, MethodDecl.expand]
  simp only [MethodDecl.regroup, Stmt.expandAll_regroupAll, bind_of_map, map_of_bind, map_of_pure]

/-- Classes may be regrouped before or after expansion. -/
theorem ClassDecl.expand_regroup (c : ClassDecl) :
    c.regroup.expand t = (c.expand t).map ClassDecl.regroup := by
  simp only [ClassDecl.regroup, ClassDecl.expand, mapM_map ConstructorDecl.expand_regroup,
    mapM_map MethodDecl.expand_regroup, bind_of_map, map_of_bind, map_of_pure]

/-- A regrouped program is expanded to the regrouped expansion, or meets the same objection. -/
theorem Program.expand_regroup (p : Program) :
    p.regroup.expand t = (p.expand t).map Program.regroup := by
  simp only [Program.regroup, Program.expand, mapM_map ClassDecl.expand_regroup, bind_of_map,
    map_of_bind, map_of_pure]

/-- Expansion and regrouping commute, over every class table and for every program. Expansion objects
to the program exactly if it objects to the regrouped program, with the same issue, at the same place
of the same source; and where it objects to neither, regrouping the expanded program and expanding
the regrouped one give the same program. -/
theorem Program.expand_commutes_with_regroup (t : ClassTable F) (p : Program) :
    (∀ f, p.expand t = .error f ↔ p.regroup.expand t = .error f) ∧ p.regroup.source = p.source ∧
      (∀ q, p.expand t = .ok q → p.regroup.expand t = .ok q.regroup) ∧
      (∀ q', p.regroup.expand t = .ok q' → ∃ q, p.expand t = .ok q ∧ q' = q.regroup) := by
  rw [expand_regroup]
  cases p.expand t with
  | error f => exact ⟨fun _ => ⟨fun h => by cases h; rfl, fun h => by cases h; rfl⟩, rfl, nofun, nofun⟩
  | ok q =>
    refine ⟨fun _ => ⟨nofun, nofun⟩, rfl, ?_, ?_⟩
    · rintro _ ⟨⟩
      rfl
    · rintro _ ⟨⟩
      exact ⟨q, rfl, rfl⟩

end Middleweight
