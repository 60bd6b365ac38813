import Middleweight.Proofs.Syntax.Finite
import Middleweight.Syntax.Decode

/-!
# Programs written and read

`Program.Written` says in which forms a program may be handed over: as its encoding, less any parts,
at any depth, that have a default and hold it. Every such form is read as the program.

* `Expr.decodeWithin?_of_written`, `Stmt.decodeWithin?_of_written` : the depth of a form is budget
  enough to read it, by induction on the tree
* `Program.written_encode` : the encoding is such a form, with nothing left out
* `Program.decode_written` : reading gives the program back
-/

namespace Middleweight

open Json (Part IsRecord IsNode IsArray IsOption Abridged string array object record? list?)

/-! ## Reading atoms -/

/-- A reader whose next part went well goes on with it. -/
theorem bind_of_some {α β : Type} {x : Option α} {a : α} {f : α → Option β} (h : x = some a) :
    (x >>= f) = f a := by
  rw [h]
  rfl

theorem Json.uint32?_toNat (n : UInt32) : Json.uint32? (.int n.toNat) = some n := by
  have hlt : (n.toNat : Int) < UInt32.size := by exact_mod_cast n.toNat_lt_size
  rw [Json.uint32?, if_pos ⟨by omega, hlt⟩, Int.toNat_natCast, UInt32.ofNat_toNat]

theorem Json.int64?_toInt (n : Int64) : Json.int64? (.int n.toInt) = some n := by
  rw [Json.int64?, if_pos ⟨n.minValue_le_toInt, n.toInt_le⟩, Int64.ofInt_toInt]

/-- A span is read from its encoding. -/
theorem Span.decode?_encode (s : Span) : Span.decode? s.encode = some s := by
  have h : Abridged [.always "line" (· = .int s.line.toNat),
      .always "column" (· = .int s.column.toNat)]
      [("line", .int s.line.toNat), ("column", .int s.column.toNat)] :=
    .keep rfl (.keep rfl .nil)
  have hnd : ["line", "column"].Nodup := by decide
  rw [Span.decode?, Span.encode, bind_of_some (h.record?_eq hnd rfl),
    bind_of_some (h.required_eq hnd 0 rfl fun j _ hj => hj ▸ Json.uint32?_toNat s.line),
    bind_of_some (h.required_eq hnd 1 rfl fun j _ hj => hj ▸ Json.uint32?_toNat s.column)]
  rfl

/-- A literal is read from its encoding, integers and floats of all sizes included. -/
theorem Literal.decode?_encode (l : Literal) : Literal.decode? l.encode = some l := by
  cases l <;>
    simp [Literal.decode?, Literal.encode, record?, Json.Parts.required, List.lookup_cons,
      Json.symbol?, Literal.ofParts?, Json.int64?_toInt, Json.float?, Json.bool?, Json.str?]

theorem BinaryOp.decode?_symbol (op : BinaryOp) :
    BinaryOp.decode? (string op.symbol) = some op := BinaryOp.ofSymbol?_symbol op

theorem UnaryOp.decode?_symbol (op : UnaryOp) :
    UnaryOp.decode? (string op.symbol) = some op := UnaryOp.ofSymbol?_symbol op

theorem StepOp.decode?_symbol (op : StepOp) :
    StepOp.decode? (string op.symbol) = some op := StepOp.ofSymbol?_symbol op

theorem AssignOp.decode?_symbol (op : AssignOp) :
    AssignOp.decode? (string op.symbol) = some op := AssignOp.ofSymbol?_symbol op

section Parts

variable {ps : List Part} {ms : List (String × Json)} (h : Abridged ps ms)
  (hnd : (ps.map Part.name).Nodup)

include h hnd

/-- The span of a node is read from the form of the node, as `0:0` where it has been left out. -/
theorem Span.orElse_eq {s : Span} (i : Nat) (hp : ps[i]? = some s.part) :
    Json.Parts.orElse ms "span" {} Span.decode? = some s :=
  h.orElse_eq hnd i hp id fun _ _ hj => hj ▸ Span.decode?_encode s

/-- A text that is always written is read. -/
theorem Json.Parts.text_eq {name s : String} (i : Nat)
    (hp : ps[i]? = some (.always name (· = string s))) :
    Json.Parts.required ms name Json.str? = some s :=
  h.required_eq hnd i hp fun _ _ hj => hj ▸ rfl

/-- A flag that is left out if false is read. -/
theorem Json.Parts.flag_eq {name : String} {b : Bool} (i : Nat)
    (hp : ps[i]? = some (.defaulting name (b = false) (· = .bool b))) :
    Json.Parts.orElse ms name false Json.bool? = some b :=
  h.orElse_eq hnd i hp id fun _ _ hj => hj ▸ rfl

end Parts

theorem Identifier.decode?_of_parts {i : Identifier} {ms : List (String × Json)}
    (h : Abridged i.parts ms) : Identifier.decode? (object ms) = some i := by
  have hnd : ["name", "span"].Nodup := by decide
  rw [Identifier.decode?, bind_of_some (h.record?_eq hnd rfl), bind_of_some (Json.Parts.text_eq h hnd 0 rfl),
    bind_of_some (Span.orElse_eq h hnd 1 rfl)]
  rfl

/-- An identifier is read from each of its forms. -/
theorem Identifier.decode?_of_written (i : Identifier) (j : Json) (h : i.Written j) :
    Identifier.decode? j = some i := by
  obtain ⟨ms, rfl, h⟩ := h
  exact decode?_of_parts h

/-! ## Reading types -/

/-- The members of a record are less deep than it. -/
theorem Json.depth_of_mem {ms : List (String × Json)} {n : Nat} (hn : (object ms).depth ≤ n + 1)
    {name : String} {j : Json} (hj : (name, j) ∈ ms) : j.depth ≤ n := by
  have := Json.depth_le_depthMembers hj
  rw [Json.depth] at hn
  omega

theorem Json.list?_array {α : Type} {read : Json → Option α} {js : List Json} {as : List α}
    (h : js.mapM read = some as) : list? read (array js) = some as := h

theorem Json.ne_null_of_isArray {Items : List Json → Prop} {j : Json} (h : IsArray Items j) :
    j ≠ .null := by
  obtain ⟨js, rfl, -⟩ := h
  exact Json.noConfusion

/-- The items of an array are less deep than it. -/
theorem Json.depthItems_le {js : List Json} {n : Nat} (hn : (array js).depth ≤ n) :
    Json.depthItems js ≤ n := by
  rw [Json.depth] at hn
  omega

mutual

/-- Reading a type takes no more budget than its form is deep. -/
theorem TypeExpr.decodeWithin?_of_written : ∀ {t : TypeExpr} {j : Json} {n : Nat}, t.Written j →
    j.depth ≤ n → TypeExpr.decodeWithin? n j = some t
  | ⟨name, generics, span⟩, j, n, hw, hn => by
    rw [TypeExpr.Written] at hw
    obtain ⟨ms, rfl, h⟩ := hw
    have hnd : ["name", "generics", "span"].Nodup := by decide
    cases n with
    | zero => rw [Json.depth] at hn; omega
    | succ n =>
      have hgenerics : Json.Parts.orElse ms "generics" [] (list? (TypeExpr.decodeWithin? n)) =
          some generics :=
        h.orElse_eq hnd 1 rfl id fun k hk hg => by
          obtain ⟨js, rfl, hg⟩ := hg
          exact Json.list?_array (TypeExpr.mapM_of_allWritten hg
            (Json.depthItems_le (Json.depth_of_mem hn hk)))
      rw [TypeExpr.decodeWithin?, bind_of_some (h.record?_eq hnd rfl),
        bind_of_some (Json.Parts.text_eq h hnd 0 rfl), bind_of_some hgenerics,
        bind_of_some (Span.orElse_eq h hnd 2 rfl)]
      rfl

theorem TypeExpr.mapM_of_allWritten : ∀ {ts : List TypeExpr} {js : List Json} {n : Nat},
    TypeExpr.AllWritten ts js → Json.depthItems js ≤ n →
    js.mapM (TypeExpr.decodeWithin? n) = some ts
  | [], js, n, hw, _ => by
    rw [TypeExpr.AllWritten] at hw
    rw [hw]
    rfl
  | t :: rest, js, n, hw, hn => by
    rw [TypeExpr.AllWritten] at hw
    obtain ⟨j, js', rfl, hj, hrest⟩ := hw
    rw [Json.depthItems] at hn
    rw [List.mapM_cons, bind_of_some (TypeExpr.decodeWithin?_of_written hj (by omega)),
      bind_of_some (TypeExpr.mapM_of_allWritten hrest (by omega))]
    rfl

end

/-- A type is read from each of its forms. -/
theorem TypeExpr.decode?_of_written (t : TypeExpr) (j : Json) (h : t.Written j) :
    TypeExpr.decode? j = some t := TypeExpr.decodeWithin?_of_written h (Nat.le_refl _)

/-! ## Reading expressions -/

/-- A node is read by its kind, with a budget for its parts that all of them fit in. -/
theorem Expr.decodeWithin?_node {kind : String} {ps : List Part} {ms : List (String × Json)}
    {n : Nat} (h : Abridged ps ms) (hkind : "kind" ∉ ps.map Part.name)
    (hn : (object (("kind", string kind) :: ms)).depth ≤ n) :
    ∃ m, (∀ name j, (name, j) ∈ ms → j.depth ≤ m) ∧
      Expr.decodeWithin? n (object (("kind", string kind) :: ms)) =
        Expr.ofKind? (Expr.decodeWithin? m) kind (object ms) := by
  cases n with
  | zero => rw [Json.depth] at hn; omega
  | succ m =>
    refine ⟨m, fun name j hj => Json.depth_of_mem hn (List.mem_cons_of_mem _ hj), ?_⟩
    rw [Expr.decodeWithin?, h.tagged?_eq hkind]

mutual

/--
Reading an expression takes no more budget than its form is deep, by induction on the expression.
-/
theorem Expr.decodeWithin?_of_written : ∀ {e : Expr} {j : Json} {n : Nat}, e.Written j →
    j.depth ≤ n → Expr.decodeWithin? n j = some e
  | .literal value span, j, n, hw, hn => by
    rw [Expr.Written] at hw
    obtain ⟨ms, rfl, h⟩ := hw
    obtain ⟨m, hm, hread⟩ := Expr.decodeWithin?_node h (by simp) hn
    have hnd : ["value", "span"].Nodup := by decide
    rw [hread, Expr.ofKind?, bind_of_some (h.record?_eq hnd rfl),
      bind_of_some (h.required_eq hnd 0 rfl fun _ _ hj => hj ▸ Literal.decode?_encode value),
      bind_of_some (Span.orElse_eq h hnd 1 rfl)]
    rfl
  | .var name, j, n, hw, hn => by
    rw [Expr.Written] at hw
    obtain ⟨ms, rfl, h⟩ := hw
    obtain ⟨m, hm, hread⟩ := Expr.decodeWithin?_node h (by simp [Identifier.parts]) hn
    rw [hread, Expr.ofKind?, Identifier.decode?_of_parts h]
    rfl
  | .binary lhs op rhs span, j, n, hw, hn => by
    rw [Expr.Written] at hw
    obtain ⟨ms, rfl, h⟩ := hw
    obtain ⟨m, hm, hread⟩ := Expr.decodeWithin?_node h (by simp) hn
    have hnd : ["lhs", "operator", "rhs", "span"].Nodup := by decide
    rw [hread, Expr.ofKind?, bind_of_some (h.record?_eq hnd rfl),
      bind_of_some (h.required_eq hnd 0 rfl fun _ hj hw =>
        Expr.decodeWithin?_of_written hw (hm _ _ hj)),
      bind_of_some (h.required_eq hnd 1 rfl fun _ _ hj => hj ▸ BinaryOp.decode?_symbol op),
      bind_of_some (h.required_eq hnd 2 rfl fun _ hj hw =>
        Expr.decodeWithin?_of_written hw (hm _ _ hj)),
      bind_of_some (Span.orElse_eq h hnd 3 rfl)]
    rfl
  | .unary op operand span, j, n, hw, hn => by
    rw [Expr.Written] at hw
    obtain ⟨ms, rfl, h⟩ := hw
    obtain ⟨m, hm, hread⟩ := Expr.decodeWithin?_node h (by simp) hn
    have hnd : ["operator", "operand", "span"].Nodup := by decide
    rw [hread, Expr.ofKind?, bind_of_some (h.record?_eq hnd rfl),
      bind_of_some (h.required_eq hnd 0 rfl fun _ _ hj => hj ▸ UnaryOp.decode?_symbol op),
      bind_of_some (h.required_eq hnd 1 rfl fun _ hj hw =>
        Expr.decodeWithin?_of_written hw (hm _ _ hj)),
      bind_of_some (Span.orElse_eq h hnd 2 rfl)]
    rfl
  | .step op before target span, j, n, hw, hn => by
    rw [Expr.Written] at hw
    obtain ⟨ms, rfl, h⟩ := hw
    obtain ⟨m, hm, hread⟩ := Expr.decodeWithin?_node h (by simp) hn
    have hnd : ["operator", "prefix", "target", "span"].Nodup := by decide
    rw [hread, Expr.ofKind?, bind_of_some (h.record?_eq hnd rfl),
      bind_of_some (h.required_eq hnd 0 rfl fun _ _ hj => hj ▸ StepOp.decode?_symbol op),
      bind_of_some (h.required_eq (a := before) hnd 1 rfl fun _ _ hj => hj ▸ rfl),
      bind_of_some (h.required_eq hnd 2 rfl fun _ hj hw =>
        Expr.decodeWithin?_of_written hw (hm _ _ hj)),
      bind_of_some (Span.orElse_eq h hnd 3 rfl)]
    rfl
  | .ternary condition thenValue elseValue span, j, n, hw, hn => by
    rw [Expr.Written] at hw
    obtain ⟨ms, rfl, h⟩ := hw
    obtain ⟨m, hm, hread⟩ := Expr.decodeWithin?_node h (by simp) hn
    have hnd : ["condition", "then_value", "else_value", "span"].Nodup := by decide
    rw [hread, Expr.ofKind?, bind_of_some (h.record?_eq hnd rfl),
      bind_of_some (h.required_eq hnd 0 rfl fun _ hj hw =>
        Expr.decodeWithin?_of_written hw (hm _ _ hj)),
      bind_of_some (h.required_eq hnd 1 rfl fun _ hj hw =>
        Expr.decodeWithin?_of_written hw (hm _ _ hj)),
      bind_of_some (h.required_eq hnd 2 rfl fun _ hj hw =>
        Expr.decodeWithin?_of_written hw (hm _ _ hj)),
      bind_of_some (Span.orElse_eq h hnd 3 rfl)]
    rfl
  | .new ty arguments span, j, n, hw, hn => by
    rw [Expr.Written] at hw
    obtain ⟨ms, rfl, h⟩ := hw
    obtain ⟨m, hm, hread⟩ := Expr.decodeWithin?_node h (by simp) hn
    have hnd : ["ty", "arguments", "span"].Nodup := by decide
    rw [hread, Expr.ofKind?, bind_of_some (h.record?_eq hnd rfl),
      bind_of_some (h.required_eq hnd 0 rfl fun _ _ => TypeExpr.decode?_of_written _ _),
      bind_of_some (h.orElse_eq hnd 1 rfl id fun _ hj hw =>
        Expr.list?_of_written hw (hm _ _ hj)),
      bind_of_some (Span.orElse_eq h hnd 2 rfl)]
    rfl
  | .field receiver name span, j, n, hw, hn => by
    rw [Expr.Written] at hw
    obtain ⟨ms, rfl, h⟩ := hw
    obtain ⟨m, hm, hread⟩ := Expr.decodeWithin?_node h (by simp) hn
    have hnd : ["receiver", "field", "span"].Nodup := by decide
    rw [hread, Expr.ofKind?, bind_of_some (h.record?_eq hnd rfl),
      bind_of_some (h.required_eq hnd 0 rfl fun _ hj hw =>
        Expr.decodeWithin?_of_written hw (hm _ _ hj)),
      bind_of_some (h.required_eq hnd 1 rfl fun _ _ => Identifier.decode?_of_written _ _),
      bind_of_some (Span.orElse_eq h hnd 2 rfl)]
    rfl
  | .call receiver method arguments span, j, n, hw, hn => by
    rw [Expr.Written] at hw
    obtain ⟨ms, rfl, h⟩ := hw
    obtain ⟨m, hm, hread⟩ := Expr.decodeWithin?_node h (by simp) hn
    have hnd : ["receiver", "method", "arguments", "span"].Nodup := by decide
    rw [hread, Expr.ofKind?, bind_of_some (h.record?_eq hnd rfl),
      bind_of_some (h.required_eq hnd 0 rfl fun _ hj hw =>
        Expr.decodeWithin?_of_written hw (hm _ _ hj)),
      bind_of_some (h.required_eq hnd 1 rfl fun _ _ => Identifier.decode?_of_written _ _),
      bind_of_some (h.orElse_eq hnd 2 rfl id fun _ hj hw =>
        Expr.list?_of_written hw (hm _ _ hj)),
      bind_of_some (Span.orElse_eq h hnd 3 rfl)]
    rfl
  | .cast ty expression span, j, n, hw, hn => by
    rw [Expr.Written] at hw
    obtain ⟨ms, rfl, h⟩ := hw
    obtain ⟨m, hm, hread⟩ := Expr.decodeWithin?_node h (by simp) hn
    have hnd : ["ty", "expression", "span"].Nodup := by decide
    rw [hread, Expr.ofKind?, bind_of_some (h.record?_eq hnd rfl),
      bind_of_some (h.required_eq hnd 0 rfl fun _ _ => TypeExpr.decode?_of_written _ _),
      bind_of_some (h.required_eq hnd 1 rfl fun _ hj hw =>
        Expr.decodeWithin?_of_written hw (hm _ _ hj)),
      bind_of_some (Span.orElse_eq h hnd 2 rfl)]
    rfl
  | .instanceOf expression ty span, j, n, hw, hn => by
    rw [Expr.Written] at hw
    obtain ⟨ms, rfl, h⟩ := hw
    obtain ⟨m, hm, hread⟩ := Expr.decodeWithin?_node h (by simp) hn
    have hnd : ["expression", "ty", "span"].Nodup := by decide
    rw [hread, Expr.ofKind?, bind_of_some (h.record?_eq hnd rfl),
      bind_of_some (h.required_eq hnd 0 rfl fun _ hj hw =>
        Expr.decodeWithin?_of_written hw (hm _ _ hj)),
      bind_of_some (h.required_eq hnd 1 rfl fun _ _ => TypeExpr.decode?_of_written _ _),
      bind_of_some (Span.orElse_eq h hnd 2 rfl)]
    rfl
  | .group expression span, j, n, hw, hn => by
    rw [Expr.Written] at hw
    obtain ⟨ms, rfl, h⟩ := hw
    obtain ⟨m, hm, hread⟩ := Expr.decodeWithin?_node h (by simp) hn
    have hnd : ["expression", "span"].Nodup := by decide
    rw [hread, Expr.ofKind?, bind_of_some (h.record?_eq hnd rfl),
      bind_of_some (h.required_eq hnd 0 rfl fun _ hj hw =>
        Expr.decodeWithin?_of_written hw (hm _ _ hj)),
      bind_of_some (Span.orElse_eq h hnd 1 rfl)]
    rfl

theorem Expr.list?_of_written : ∀ {es : List Expr} {j : Json} {n : Nat},
    IsArray (Expr.AllWritten es) j → j.depth ≤ n → list? (Expr.decodeWithin? n) j = some es
  | es, _, _, ⟨_, rfl, hw⟩, hn =>
    Json.list?_array (Expr.mapM_of_allWritten hw (Json.depthItems_le hn))

theorem Expr.mapM_of_allWritten : ∀ {es : List Expr} {js : List Json} {n : Nat},
    Expr.AllWritten es js → Json.depthItems js ≤ n → js.mapM (Expr.decodeWithin? n) = some es
  | [], js, n, hw, _ => by
    rw [Expr.AllWritten] at hw
    rw [hw]
    rfl
  | e :: rest, js, n, hw, hn => by
    rw [Expr.AllWritten] at hw
    obtain ⟨j, js', rfl, hj, hrest⟩ := hw
    rw [Json.depthItems] at hn
    rw [List.mapM_cons, bind_of_some (Expr.decodeWithin?_of_written hj (by omega)),
      bind_of_some (Expr.mapM_of_allWritten hrest (by omega))]
    rfl

end

/-- An expression is read from each of its forms. -/
theorem Expr.decode?_of_written (e : Expr) (j : Json) (h : e.Written j) :
    Expr.decode? j = some e := Expr.decodeWithin?_of_written h (Nat.le_refl _)

theorem Expr.allWritten_iff {es : List Expr} {js : List Json} :
    Expr.AllWritten es js ↔ List.Forall₂ Expr.Written es js := by
  induction es generalizing js with
  | nil => simp [Expr.AllWritten]
  | cons e rest ih =>
    simp only [Expr.AllWritten, List.forall₂_cons_left_iff, ih]
    exact ⟨fun ⟨j, js', hjs, hj, hrest⟩ => ⟨j, js', hj, hrest, hjs⟩,
      fun ⟨j, js', hj, hrest, hjs⟩ => ⟨j, js', hjs, hj, hrest⟩⟩

/-- No expression is written `null`, so that an absent one can be. -/
theorem Expr.ne_null {e : Expr} {j : Json} (h : e.Written j) : j ≠ .null := by
  rintro rfl
  cases e <;> simp [Expr.Written, IsNode] at h

/-- An expression that may be missing is read, as missing where it has been left out. -/
theorem Expr.optional_eq {ps : List Part} {ms : List (String × Json)} (h : Abridged ps ms)
    (hnd : (ps.map Part.name).Nodup) {name : String} {o : Option Expr} (i : Nat)
    (hp : ps[i]? = some (.defaulting name (o = none) (IsOption Expr.Written o))) :
    Json.Parts.optional ms name Expr.decode? = some o :=
  h.optional_eq hnd i hp id fun j _ hj => by
    cases o with
    | none => exact hj
    | some e => exact ⟨Expr.ne_null hj, Expr.decode?_of_written _ _ hj⟩

/-! ## Reading statements -/

/-- A statement is read by its kind, with a budget for its parts that all of them fit in. -/
theorem Stmt.decodeWithin?_node {kind : String} {ps : List Part} {ms : List (String × Json)}
    {n : Nat} (h : Abridged ps ms) (hkind : "kind" ∉ ps.map Part.name)
    (hn : (object (("kind", string kind) :: ms)).depth ≤ n) :
    ∃ m, (∀ name j, (name, j) ∈ ms → j.depth ≤ m) ∧
      Stmt.decodeWithin? n (object (("kind", string kind) :: ms)) =
        Stmt.ofKind? (Stmt.decodeWithin? m) kind (object ms) := by
  cases n with
  | zero => rw [Json.depth] at hn; omega
  | succ m =>
    refine ⟨m, fun name j hj => Json.depth_of_mem hn (List.mem_cons_of_mem _ hj), ?_⟩
    rw [Stmt.decodeWithin?, h.tagged?_eq hkind]

mutual

/--
Reading a statement takes no more budget than its form is deep, by induction on the statement.
-/
theorem Stmt.decodeWithin?_of_written : ∀ {s : Stmt} {j : Json} {n : Nat}, s.Written j →
    j.depth ≤ n → Stmt.decodeWithin? n j = some s
  | .localVariable ty name value span, j, n, hw, hn => by
    rw [Stmt.Written] at hw
    obtain ⟨ms, rfl, h⟩ := hw
    obtain ⟨m, -, hread⟩ := Stmt.decodeWithin?_node h (by simp) hn
    have hnd : ["ty", "name", "value", "span"].Nodup := by decide
    rw [hread, Stmt.ofKind?, bind_of_some (h.record?_eq hnd rfl),
      bind_of_some (h.required_eq hnd 0 rfl fun _ _ => TypeExpr.decode?_of_written _ _),
      bind_of_some (h.required_eq hnd 1 rfl fun _ _ => Identifier.decode?_of_written _ _),
      bind_of_some (Expr.optional_eq h hnd 2 rfl), bind_of_some (Span.orElse_eq h hnd 3 rfl)]
    rfl
  | .assign target op value span, j, n, hw, hn => by
    rw [Stmt.Written] at hw
    obtain ⟨ms, rfl, h⟩ := hw
    obtain ⟨m, -, hread⟩ := Stmt.decodeWithin?_node h (by simp) hn
    have hnd : ["target", "operator", "value", "span"].Nodup := by decide
    rw [hread, Stmt.ofKind?, bind_of_some (h.record?_eq hnd rfl),
      bind_of_some (h.required_eq hnd 0 rfl fun _ _ => Identifier.decode?_of_written _ _),
      bind_of_some (h.required_eq hnd 1 rfl fun _ _ hj => hj ▸ AssignOp.decode?_symbol op),
      bind_of_some (h.required_eq hnd 2 rfl fun _ _ => Expr.decode?_of_written _ _),
      bind_of_some (Span.orElse_eq h hnd 3 rfl)]
    rfl
  | .fieldAssign receiver field op value span, j, n, hw, hn => by
    rw [Stmt.Written] at hw
    obtain ⟨ms, rfl, h⟩ := hw
    obtain ⟨m, -, hread⟩ := Stmt.decodeWithin?_node h (by simp) hn
    have hnd : ["receiver", "field", "operator", "value", "span"].Nodup := by decide
    rw [hread, Stmt.ofKind?, bind_of_some (h.record?_eq hnd rfl),
      bind_of_some (h.required_eq hnd 0 rfl fun _ _ => Expr.decode?_of_written _ _),
      bind_of_some (h.required_eq hnd 1 rfl fun _ _ => Identifier.decode?_of_written _ _),
      bind_of_some (h.required_eq hnd 2 rfl fun _ _ hj => hj ▸ AssignOp.decode?_symbol op),
      bind_of_some (h.required_eq hnd 3 rfl fun _ _ => Expr.decode?_of_written _ _),
      bind_of_some (Span.orElse_eq h hnd 4 rfl)]
    rfl
  | .expression e span, j, n, hw, hn => by
    rw [Stmt.Written] at hw
    obtain ⟨ms, rfl, h⟩ := hw
    obtain ⟨m, -, hread⟩ := Stmt.decodeWithin?_node h (by simp) hn
    have hnd : ["expression", "span"].Nodup := by decide
    rw [hread, Stmt.ofKind?, bind_of_some (h.record?_eq hnd rfl),
      bind_of_some (h.required_eq hnd 0 rfl fun _ _ => Expr.decode?_of_written _ _),
      bind_of_some (Span.orElse_eq h hnd 1 rfl)]
    rfl
  | .ifElse condition thenBranch none span, j, n, hw, hn => by
    rw [Stmt.Written] at hw
    obtain ⟨ms, rfl, h⟩ := hw
    obtain ⟨m, hm, hread⟩ := Stmt.decodeWithin?_node h (by simp) hn
    have hnd : ["condition", "then_branch", "else_branch", "span"].Nodup := by decide
    rw [hread, Stmt.ofKind?, bind_of_some (h.record?_eq hnd rfl),
      bind_of_some (h.required_eq hnd 0 rfl fun _ _ => Expr.decode?_of_written _ _),
      bind_of_some (h.required_eq hnd 1 rfl fun _ hj hw => Stmt.list?_of_written hw (hm _ _ hj)),
      bind_of_some (h.optional_eq (o := none) hnd 2 rfl (fun _ => rfl) fun _ _ hj => hj),
      bind_of_some (Span.orElse_eq h hnd 3 rfl)]
    rfl
  | .ifElse condition thenBranch (some elseBranch) span, j, n, hw, hn => by
    rw [Stmt.Written] at hw
    obtain ⟨ms, rfl, h⟩ := hw
    obtain ⟨m, hm, hread⟩ := Stmt.decodeWithin?_node h (by simp) hn
    have hnd : ["condition", "then_branch", "else_branch", "span"].Nodup := by decide
    rw [hread, Stmt.ofKind?, bind_of_some (h.record?_eq hnd rfl),
      bind_of_some (h.required_eq hnd 0 rfl fun _ _ => Expr.decode?_of_written _ _),
      bind_of_some (h.required_eq hnd 1 rfl fun _ hj hw => Stmt.list?_of_written hw (hm _ _ hj)),
      bind_of_some (h.optional_eq (o := some elseBranch) hnd 2 rfl False.elim fun _ hj hw =>
        ⟨Json.ne_null_of_isArray hw, Stmt.list?_of_written hw (hm _ _ hj)⟩),
      bind_of_some (Span.orElse_eq h hnd 3 rfl)]
    rfl
  | .whileLoop condition body span, j, n, hw, hn => by
    rw [Stmt.Written] at hw
    obtain ⟨ms, rfl, h⟩ := hw
    obtain ⟨m, hm, hread⟩ := Stmt.decodeWithin?_node h (by simp) hn
    have hnd : ["condition", "body", "span"].Nodup := by decide
    rw [hread, Stmt.ofKind?, bind_of_some (h.record?_eq hnd rfl),
      bind_of_some (h.required_eq hnd 0 rfl fun _ _ => Expr.decode?_of_written _ _),
      bind_of_some (h.required_eq hnd 1 rfl fun _ hj hw => Stmt.list?_of_written hw (hm _ _ hj)),
      bind_of_some (Span.orElse_eq h hnd 2 rfl)]
    rfl
  | .forLoop init condition update body span, j, n, hw, hn => by
    rw [Stmt.Written] at hw
    obtain ⟨ms, rfl, h⟩ := hw
    obtain ⟨m, hm, hread⟩ := Stmt.decodeWithin?_node h (by simp) hn
    have hnd : ["init", "condition", "update", "body", "span"].Nodup := by decide
    rw [hread, Stmt.ofKind?, bind_of_some (h.record?_eq hnd rfl),
      bind_of_some (h.required_eq hnd 0 rfl fun _ hj hw =>
        Stmt.decodeWithin?_of_written hw (hm _ _ hj)),
      bind_of_some (h.required_eq hnd 1 rfl fun _ _ => Expr.decode?_of_written _ _),
      bind_of_some (h.required_eq hnd 2 rfl fun _ hj hw =>
        Stmt.decodeWithin?_of_written hw (hm _ _ hj)),
      bind_of_some (h.required_eq hnd 3 rfl fun _ hj hw => Stmt.list?_of_written hw (hm _ _ hj)),
      bind_of_some (Span.orElse_eq h hnd 4 rfl)]
    rfl
  | .returns value span, j, n, hw, hn => by
    rw [Stmt.Written] at hw
    obtain ⟨ms, rfl, h⟩ := hw
    obtain ⟨m, -, hread⟩ := Stmt.decodeWithin?_node h (by simp) hn
    have hnd : ["value", "span"].Nodup := by decide
    rw [hread, Stmt.ofKind?, bind_of_some (h.record?_eq hnd rfl),
      bind_of_some (Expr.optional_eq h hnd 0 rfl), bind_of_some (Span.orElse_eq h hnd 1 rfl)]
    rfl
  | .block statements span, j, n, hw, hn => by
    rw [Stmt.Written] at hw
    obtain ⟨ms, rfl, h⟩ := hw
    obtain ⟨m, hm, hread⟩ := Stmt.decodeWithin?_node h (by simp) hn
    have hnd : ["statements", "span"].Nodup := by decide
    rw [hread, Stmt.ofKind?, bind_of_some (h.record?_eq hnd rfl),
      bind_of_some (h.required_eq hnd 0 rfl fun _ hj hw => Stmt.list?_of_written hw (hm _ _ hj)),
      bind_of_some (Span.orElse_eq h hnd 1 rfl)]
    rfl

theorem Stmt.list?_of_written : ∀ {ss : List Stmt} {j : Json} {n : Nat},
    IsArray (Stmt.AllWritten ss) j → j.depth ≤ n → list? (Stmt.decodeWithin? n) j = some ss
  | ss, _, _, ⟨_, rfl, hw⟩, hn =>
    Json.list?_array (Stmt.mapM_of_allWritten hw (Json.depthItems_le hn))

theorem Stmt.mapM_of_allWritten : ∀ {ss : List Stmt} {js : List Json} {n : Nat},
    Stmt.AllWritten ss js → Json.depthItems js ≤ n → js.mapM (Stmt.decodeWithin? n) = some ss
  | [], js, n, hw, _ => by
    rw [Stmt.AllWritten] at hw
    rw [hw]
    rfl
  | s :: rest, js, n, hw, hn => by
    rw [Stmt.AllWritten] at hw
    obtain ⟨j, js', rfl, hj, hrest⟩ := hw
    rw [Json.depthItems] at hn
    rw [List.mapM_cons, bind_of_some (Stmt.decodeWithin?_of_written hj (by omega)),
      bind_of_some (Stmt.mapM_of_allWritten hrest (by omega))]
    rfl

end

/-- A statement is read from each of its forms. -/
theorem Stmt.decode?_of_written (s : Stmt) (j : Json) (h : s.Written j) :
    Stmt.decode? j = some s := Stmt.decodeWithin?_of_written h (Nat.le_refl _)

theorem Stmt.allWritten_iff {ss : List Stmt} {js : List Json} :
    Stmt.AllWritten ss js ↔ List.Forall₂ Stmt.Written ss js := by
  induction ss generalizing js with
  | nil => simp [Stmt.AllWritten]
  | cons s rest ih =>
    simp only [Stmt.AllWritten, List.forall₂_cons_left_iff, ih]
    exact ⟨fun ⟨j, js', hjs, hj, hrest⟩ => ⟨j, js', hj, hrest, hjs⟩,
      fun ⟨j, js', hj, hrest, hjs⟩ => ⟨j, js', hjs, hj, hrest⟩⟩

/-! ## Reading declarations -/

section Lists

variable {α : Type} {Written : α → Json → Prop} {read : Json → Option α}
  (hread : ∀ a j, Written a j → read j = some a)

include hread

theorem Json.list?_of_forall₂ {as : List α} {j : Json} (h : IsArray (List.Forall₂ Written as) j) :
    list? read j = some as := by
  obtain ⟨js, rfl, h⟩ := h
  refine Json.list?_array ?_
  induction h with
  | nil => rfl
  | cons hj _ ih => rw [List.mapM_cons, bind_of_some (hread _ _ hj), bind_of_some ih]; rfl

/-- A list that is left out if empty is read. -/
theorem Json.Parts.list_eq {ps : List Part} {ms : List (String × Json)} (h : Abridged ps ms)
    (hnd : (ps.map Part.name).Nodup) {name : String} {as : List α} (i : Nat)
    (hp : ps[i]? = some (.list name Written as)) :
    Json.Parts.orElse ms name [] (list? read) = some as :=
  h.orElse_eq hnd i hp id fun _ _ hj => Json.list?_of_forall₂ hread hj

end Lists

theorem TypeExpr.ne_null {t : TypeExpr} {j : Json} (h : t.Written j) : j ≠ .null := by
  rintro rfl
  cases t
  simp [TypeExpr.Written, IsRecord] at h

/-- A type that may be missing is read, as missing where it has been left out. -/
theorem TypeExpr.optional_eq {ps : List Part} {ms : List (String × Json)} (h : Abridged ps ms)
    (hnd : (ps.map Part.name).Nodup) {name : String} {o : Option TypeExpr} (i : Nat)
    (hp : ps[i]? = some (.defaulting name (o = none) (IsOption TypeExpr.Written o))) :
    Json.Parts.optional ms name TypeExpr.decode? = some o :=
  h.optional_eq hnd i hp id fun j _ hj => by
    cases o with
    | none => exact hj
    | some t => exact ⟨TypeExpr.ne_null hj, TypeExpr.decode?_of_written _ _ hj⟩

/-- A body is read, as empty where it has been left out. -/
theorem Stmt.body_eq {ps : List Part} {ms : List (String × Json)} (h : Abridged ps ms)
    (hnd : (ps.map Part.name).Nodup) {body : List Stmt} (i : Nat)
    (hp : ps[i]? = some (.defaulting "body" (body = []) (IsArray (Stmt.AllWritten body)))) :
    Json.Parts.orElse ms "body" [] (list? Stmt.decode?) = some body :=
  h.orElse_eq hnd i hp id fun _ _ ⟨js, hjs, hw⟩ =>
    Json.list?_of_forall₂ Stmt.decode?_of_written ⟨js, hjs, Stmt.allWritten_iff.mp hw⟩

theorem Parameter.decode?_of_written (p : Parameter) (j : Json) (hw : p.Written j) :
    Parameter.decode? j = some p := by
  obtain ⟨ms, rfl, h⟩ := hw
  have hnd : ["ty", "name"].Nodup := by decide
  rw [Parameter.decode?, bind_of_some (h.record?_eq hnd rfl),
    bind_of_some (h.required_eq hnd 0 rfl fun _ _ => TypeExpr.decode?_of_written _ _),
    bind_of_some (h.required_eq hnd 1 rfl fun _ _ => Identifier.decode?_of_written _ _)]
  rfl

theorem FieldDecl.decode?_of_written (f : FieldDecl) (j : Json) (hw : f.Written j) :
    FieldDecl.decode? j = some f := by
  obtain ⟨ms, rfl, h⟩ := hw
  have hnd : ["ty", "name", "span"].Nodup := by decide
  rw [FieldDecl.decode?, bind_of_some (h.record?_eq hnd rfl),
    bind_of_some (h.required_eq hnd 0 rfl fun _ _ => TypeExpr.decode?_of_written _ _),
    bind_of_some (h.required_eq hnd 1 rfl fun _ _ => Identifier.decode?_of_written _ _),
    bind_of_some (Span.orElse_eq h hnd 2 rfl)]
  rfl

/--
A constructor is read from each of its forms; no arguments for the base differ from an empty list.
-/
theorem ConstructorDecl.decode?_of_written (c : ConstructorDecl) (j : Json) (hw : c.Written j) :
    ConstructorDecl.decode? j = some c := by
  obtain ⟨ms, rfl, h⟩ := hw
  have hnd : ["parameters", "super_arguments", "body", "span"].Nodup := by decide
  have hsuper : Json.Parts.optional ms "super_arguments" (list? Expr.decode?) =
      some c.superArguments :=
    h.optional_eq hnd 1 rfl id fun j _ hj => by
      cases hc : c.superArguments with
      | none => rw [hc] at hj; exact hj
      | some es =>
        rw [hc] at hj
        obtain ⟨js, rfl, hw⟩ := hj
        exact ⟨Json.noConfusion, Json.list?_of_forall₂ Expr.decode?_of_written
          ⟨js, rfl, Expr.allWritten_iff.mp hw⟩⟩
  rw [ConstructorDecl.decode?, bind_of_some (h.record?_eq hnd rfl),
    bind_of_some (Json.Parts.list_eq Parameter.decode?_of_written h hnd 0 rfl),
    bind_of_some hsuper, bind_of_some (Stmt.body_eq h hnd 2 rfl),
    bind_of_some (Span.orElse_eq h hnd 3 rfl)]
  rfl

/-- A method is read from each of its forms. -/
theorem MethodDecl.decode?_of_written (m : MethodDecl) (j : Json) (hw : m.Written j) :
    MethodDecl.decode? j = some m := by
  obtain ⟨ms, rfl, h⟩ := hw
  have hnd : ["name", "is_static", "generics", "return_type", "parameters", "body",
    "span"].Nodup := by decide
  rw [MethodDecl.decode?, bind_of_some (h.record?_eq hnd rfl),
    bind_of_some (h.required_eq hnd 0 rfl fun _ _ => Identifier.decode?_of_written _ _),
    bind_of_some (Json.Parts.flag_eq h hnd 1 rfl),
    bind_of_some (Json.Parts.list_eq Identifier.decode?_of_written h hnd 2 rfl),
    bind_of_some (TypeExpr.optional_eq h hnd 3 rfl),
    bind_of_some (Json.Parts.list_eq Parameter.decode?_of_written h hnd 4 rfl),
    bind_of_some (Stmt.body_eq h hnd 5 rfl), bind_of_some (Span.orElse_eq h hnd 6 rfl)]
  rfl

/-- A class is read from each of its forms, with its members in their order. -/
theorem ClassDecl.decode?_of_written (c : ClassDecl) (j : Json) (hw : c.Written j) :
    ClassDecl.decode? j = some c := by
  obtain ⟨ms, rfl, h⟩ := hw
  have hnd : ["name", "generics", "base", "fields", "constructors", "methods",
    "span"].Nodup := by decide
  rw [ClassDecl.decode?, bind_of_some (h.record?_eq hnd rfl),
    bind_of_some (h.required_eq hnd 0 rfl fun _ _ => Identifier.decode?_of_written _ _),
    bind_of_some (Json.Parts.list_eq Identifier.decode?_of_written h hnd 1 rfl),
    bind_of_some (TypeExpr.optional_eq h hnd 2 rfl),
    bind_of_some (Json.Parts.list_eq FieldDecl.decode?_of_written h hnd 3 rfl),
    bind_of_some (Json.Parts.list_eq ConstructorDecl.decode?_of_written h hnd 4 rfl),
    bind_of_some (Json.Parts.list_eq MethodDecl.decode?_of_written h hnd 5 rfl),
    bind_of_some (Span.orElse_eq h hnd 6 rfl)]
  rfl

theorem Import.decode?_of_written (i : Import) (j : Json) (hw : i.Written j) :
    Import.decode? j = some i := by
  obtain ⟨ms, rfl, h⟩ := hw
  have hnd : ["path", "wildcard", "span"].Nodup := by decide
  rw [Import.decode?, bind_of_some (h.record?_eq hnd rfl),
    bind_of_some (h.required_eq hnd 0 rfl fun _ _ =>
      Json.list?_of_forall₂ Identifier.decode?_of_written),
    bind_of_some (Json.Parts.flag_eq h hnd 1 rfl), bind_of_some (Span.orElse_eq h hnd 2 rfl)]
  rfl

/-- A program is read from each of its forms. -/
theorem Program.decode?_of_written {p : Program} {j : Json} (hw : p.Written j) :
    Program.decode? j = some p := by
  obtain ⟨ms, rfl, h⟩ := hw
  have hnd : ["source", "imports", "classes"].Nodup := by decide
  rw [Program.decode?, bind_of_some (h.record?_eq hnd rfl),
    bind_of_some (Json.Parts.text_eq h hnd 0 rfl),
    bind_of_some (Json.Parts.list_eq Import.decode?_of_written h hnd 1 rfl),
    bind_of_some (Json.Parts.list_eq ClassDecl.decode?_of_written h hnd 2 rfl)]
  rfl

/-- A program whose float literals are finite can be written as JSON and is read back: from its
encoding, and from the encoding with any parts left out that hold their defaults. -/
theorem Program.decode_written (p : Program) (h : p.IsFinite) :
    p.encode.IsFinite ∧ Program.decode? p.encode = some p ∧
      ∀ j, p.Written j → j.IsFinite ∧ Program.decode? j = some p :=
  ⟨Program.finite_of_written h p.written_encode, Program.decode?_of_written p.written_encode,
    fun _ hj => ⟨Program.finite_of_written h hj, Program.decode?_of_written hj⟩⟩

/-- A method that returns a float. -/
def glow : MethodDecl where
  name := { name := "glow" }
  returnType := some { name := "float" }
  body := [.returns (some (.literal (.float 0.5) {})) {}]

/-- A class with one method. -/
def lamp : Program where
  source := "Lamp"
  classes := [{
    name := { name := "Lamp", span := { line := 1, column := 7 } }
    methods := [glow] }]

/-- The lamp without its defaults, but for the `null` of its absent base. -/
def lampForm : Json :=
  object [("source", string "Lamp"), ("classes", array [object [
    ("name", object [("name", string "Lamp"),
      ("span", object [("line", .int 1), ("column", .int 7)])]),
    ("base", .null),
    ("methods", array [object [
      ("name", object [("name", string "glow")]),
      ("return_type", object [("name", string "float")]),
      ("body", array [object [("kind", string "return"),
        ("value", object [("kind", string "literal"),
          ("value", object [("type", string "float"), ("value", .float 0.5)])])]])]])]])]

/-- The form of a lamp, with most of its default parts left out, is read as the lamp. -/
theorem Program.decode_written_lamp :
    lamp.IsFinite ∧ lamp.Written lampForm ∧ lampForm.IsFinite ∧
      Program.decode? lampForm = some lamp := by
  have hfinite : lamp.IsFinite := by
    simp only [Program.IsFinite, lamp, glow, List.forall_mem_singleton]
    exact ⟨by simp, ⟨fun e he => Option.some.inj he ▸ (by decide : (0.5 : Float).isFinite = true),
      trivial⟩⟩
  have hbody : IsArray (Stmt.AllWritten glow.body) _ :=
    ⟨_, rfl, _, _, rfl,
      ⟨_, rfl, .keep ⟨_, rfl, .keep rfl (.leave rfl .nil)⟩ (.leave rfl .nil)⟩, rfl⟩
  have hmethod : glow.Written _ :=
    ⟨_, rfl, .keep ⟨_, rfl, .keep rfl (.leave rfl .nil)⟩ (.leave rfl (.leave rfl
      (.keep ⟨_, rfl, .keep rfl (.leave rfl (.leave rfl .nil))⟩
      (.leave rfl (.keep hbody (.leave rfl .nil))))))⟩
  have hform : lamp.Written lampForm :=
    ⟨_, rfl, .keep rfl (.leave rfl (.keep ⟨_, rfl, .cons
      ⟨_, rfl, .keep ⟨_, rfl, .keep rfl (.keep rfl .nil)⟩ (.leave rfl (.keep rfl (.leave rfl
        (.leave rfl (.keep ⟨_, rfl, .cons hmethod .nil⟩ (.leave rfl .nil))))))⟩ .nil⟩ .nil))⟩
  exact ⟨hfinite, hform, (Program.decode_written lamp hfinite).2.2 lampForm hform⟩

end Middleweight
