import Middleweight.Proofs.ClassTable.Complete
import Middleweight.Proofs.World.History

/-!
# Lists are sequences

The host keeps a sequence inside every list. The functions of the class of lists act on it as on a
mathematical sequence, whatever is done to however many lists and through whichever references: they
append, read, replace, delete and copy at the position that an index names. They fail where an index
or a range is out of bounds, and then nothing has changed. A list that is cut out of another one is
a new object, and no function changes the sequence of another object than the one it is called on.

* `ListOp.Acts` : what is done with a sequence
* `ListAction.Step` : what is done with the sequences of all objects
* `ListAction.exists_answer` : one call of the host
* `lists_refine_sequences` : any history of calls
-/

namespace Middleweight

open NativeRegistry (standard)

variable {F : Type}

/-! ## Sequences -/

/-- An operation on a list. -/
inductive ListOp (F : Type) where
  | add (item : Variable F)
  | clear
  | contains (item : Variable F)
  | get (index : Int64)
  | size
  | set (index : Int64) (item : Variable F)
  | subList (start stop : Int64)
  | remove (index : Int64)
  | isEmpty

/-- What comes of an operation on a sequence. -/
inductive ListEffect (F : Type) where
  /-- A result, and the sequence afterwards. -/
  | gives (result : Value F) (items : List (Variable F))
  /-- A sequence of its own. -/
  | copies (part : List (Variable F))
  | fails (text : String)

namespace ListOp

/-- Whether the index or the range of an operation is within a sequence of a given length. -/
def InBounds (length : Nat) : ListOp F → Prop
  | get index | set index _ | remove index => 0 ≤ index.toInt ∧ index.toInt < length
  | subList start stop => 0 ≤ start.toInt ∧ start.toInt ≤ stop.toInt ∧ stop.toInt ≤ length
  | add _ | clear | contains _ | size | isEmpty => True

/-- The message of an operation that is out of bounds. -/
def complaint (length : Nat) : ListOp F → String
  | get index | set index _ | remove index =>
    "Index " ++ toString index.toInt ++ " out of bounds for length " ++ toString length
  | subList start stop =>
    "fromIndex: " ++ toString start.toInt ++ ", toIndex: " ++ toString stop.toInt ++ ", length: " ++
      toString length
  | add _ | clear | contains _ | size | isEmpty => ""

/-- What the operations do with a sequence. -/
inductive Acts : ListOp F → List (Variable F) → ListEffect F → Prop
  | add (x : Variable F) (xs : List (Variable F)) : Acts (add x) xs (.gives .null (xs ++ [x]))
  | clear (xs : List (Variable F)) : Acts clear xs (.gives .null [])
  | contains {x : Variable F} {xs : List (Variable F)} {found : Bool} :
      (found = true ↔ ∃ y ∈ xs, y.value.equals x.value = true) →
      Acts (contains x) xs (.gives (.bool found) xs)
  | get {index : Int64} {front rest : List (Variable F)} {x : Variable F} :
      index.toInt = front.length →
      Acts (get index) (front ++ x :: rest) (.gives x.value (front ++ x :: rest))
  | set {index : Int64} {front rest : List (Variable F)} {x y : Variable F} :
      index.toInt = front.length →
      Acts (set index y) (front ++ x :: rest) (.gives x.value (front ++ y :: rest))
  | remove {index : Int64} {front rest : List (Variable F)} {x : Variable F} :
      index.toInt = front.length →
      Acts (remove index) (front ++ x :: rest) (.gives x.value (front ++ rest))
  | subList {start stop : Int64} {front part rest : List (Variable F)} :
      start.toInt = front.length → stop.toInt = front.length + part.length →
      Acts (subList start stop) (front ++ part ++ rest) (.copies part)
  | size {n : Int64} {xs : List (Variable F)} : n.toInt = xs.length →
      Acts size xs (.gives (.int n) xs)
  /-- No memory holds a sequence whose length is not an integer. -/
  | endless {xs : List (Variable F)} : (∀ n : Int64, n.toInt ≠ xs.length) →
      Acts size xs (.gives (.int (Int64.ofNat xs.length)) xs)
  | isEmpty {xs : List (Variable F)} {empty : Bool} : (empty = true ↔ xs = []) →
      Acts isEmpty xs (.gives (.bool empty) xs)
  | fails {op : ListOp F} {xs : List (Variable F)} : ¬ op.InBounds xs.length →
      Acts op xs (.fails (op.complaint xs.length))

/-- The function of the standard library that carries out an operation. -/
def function : ListOp F → StandardFn
  | add _ => .listAdd
  | clear => .listClear
  | contains _ => .listContains
  | get _ => .listGet
  | size => .listSize
  | set _ _ => .listSet
  | subList _ _ => .listSubList
  | remove _ => .listRemove
  | isEmpty => .listIsEmpty

/-- The arguments of that function, where indexes are declared with a given class. -/
def args (c : RuntimeClass F) : ListOp F → List (Variable F)
  | add item | contains item => [item]
  | get index | remove index => [⟨c, .int index⟩]
  | set index item => [⟨c, .int index⟩, item]
  | subList start stop => [⟨c, .int start⟩, ⟨c, .int stop⟩]
  | clear | size | isEmpty => []

/-- Apart from the constructor, the functions of lists are those that carry out operations. -/
theorem onList_iff (f : StandardFn) (x : Variable F) :
    f.onList = true ↔ f = .listNew ∨ ∃ op : ListOp F, op.function = f := by
  constructor
  · intro h
    cases f with
    | listNew => exact .inl rfl
    | listAdd => exact .inr ⟨add x, rfl⟩
    | listClear => exact .inr ⟨clear, rfl⟩
    | listContains => exact .inr ⟨contains x, rfl⟩
    | listGet => exact .inr ⟨get 0, rfl⟩
    | listSize => exact .inr ⟨size, rfl⟩
    | listSet => exact .inr ⟨set 0 x, rfl⟩
    | listSubList => exact .inr ⟨subList 0 0, rfl⟩
    | listRemove => exact .inr ⟨remove 0, rfl⟩
    | listIsEmpty => exact .inr ⟨isEmpty, rfl⟩
    | _ => cases h
  · rintro (rfl | ⟨op, rfl⟩)
    · rfl
    · cases op <;> rfl

/-! ## What the functions compute -/

/-- What an operation makes of the position that its index names, if it names one. -/
def atIndex (op : ListOp F) (index : Int64) (xs : List (Variable F))
    (effect : Nat → Variable F → ListEffect F) : ListEffect F :=
  match StandardFn.position? index xs.length with
  | some i =>
    match xs[i]? with
    | some x => effect i x
    | none => .fails (op.complaint xs.length)
  | none => .fails (op.complaint xs.length)

/-- What the functions of the standard library make of a sequence. -/
def effect (op : ListOp F) (xs : List (Variable F)) : ListEffect F :=
  match op with
  | add x => .gives .null (xs ++ [x])
  | clear => .gives .null []
  | contains x => .gives (.bool (xs.any fun y => y.value.equals x.value)) xs
  | get index => op.atIndex index xs fun _ x => .gives x.value xs
  | size => .gives (.int (Int64.ofNat xs.length)) xs
  | set index y => op.atIndex index xs fun i x => .gives x.value (xs.set i y)
  | subList start stop =>
    if StandardFn.isRange start stop xs.length then
      .copies (StandardFn.slice start.toInt.toNat stop.toInt.toNat xs)
    else .fails (op.complaint xs.length)
  | remove index => op.atIndex index xs fun i x => .gives x.value (xs.eraseIdx i)
  | isEmpty => .gives (.bool xs.isEmpty) xs

section AtIndex

variable {op : ListOp F} {index : Int64} {effect : Nat → Variable F → ListEffect F}

theorem atIndex_of_toInt {front rest : List (Variable F)} {x : Variable F}
    (h : index.toInt = front.length) :
    op.atIndex index (front ++ x :: rest) effect = effect front.length x := by
  have hposition : StandardFn.position? index (front ++ x :: rest).length = some front.length := by
    rw [StandardFn.position?, h, List.length_append, List.length_cons, if_pos (by omega)]
    rfl
  rw [atIndex, hposition]
  simp

theorem atIndex_of_outside {xs : List (Variable F)}
    (h : ¬ (0 ≤ index.toInt ∧ index.toInt < xs.length)) :
    op.atIndex index xs effect = .fails (op.complaint xs.length) := by
  rw [atIndex, StandardFn.position?, if_neg h]

/-- An index that is within a sequence splits it. -/
theorem exists_split {xs : List (Variable F)} (h : 0 ≤ index.toInt ∧ index.toInt < xs.length) :
    ∃ front x rest, xs = front ++ x :: rest ∧ index.toInt = front.length := by
  have hlt : index.toInt.toNat < xs.length := by omega
  refine ⟨xs.take index.toInt.toNat, xs[index.toInt.toNat], xs.drop (index.toInt.toNat + 1), ?_, ?_⟩
  · rw [List.getElem_cons_drop, List.take_append_drop]
  · rw [List.length_take]
    omega

end AtIndex

theorem isRange_iff {start stop : Int64} {n : Nat} : StandardFn.isRange start stop n = true ↔
    0 ≤ start.toInt ∧ start.toInt ≤ stop.toInt ∧ stop.toInt ≤ n := by
  simp [StandardFn.isRange, and_assoc]

/-- A range that is within a sequence splits it in three. -/
theorem exists_split_of_range {start stop : Int64} {xs : List (Variable F)}
    (h : 0 ≤ start.toInt ∧ start.toInt ≤ stop.toInt ∧ stop.toInt ≤ xs.length) :
    ∃ front part rest, xs = front ++ part ++ rest ∧ start.toInt = front.length ∧
      stop.toInt = front.length + part.length := by
  refine ⟨xs.take start.toInt.toNat, (xs.take stop.toInt.toNat).drop start.toInt.toNat,
    xs.drop stop.toInt.toNat, ?_, ?_, ?_⟩
  · have htake : xs.take start.toInt.toNat =
        (xs.take stop.toInt.toNat).take start.toInt.toNat := by
      rw [List.take_take, Nat.min_eq_left (by omega)]
    rw [htake, List.take_append_drop, List.take_append_drop]
  · rw [List.length_take]
    omega
  · rw [List.length_drop, List.length_take, List.length_take]
    omega

theorem slice_of_toInt {start stop : Int64} {front part rest : List (Variable F)}
    (hstart : start.toInt = front.length) (hstop : stop.toInt = front.length + part.length) :
    StandardFn.slice start.toInt.toNat stop.toInt.toNat (front ++ part ++ rest) = part := by
  have hlength : stop.toInt.toNat = (front ++ part).length := by
    rw [List.length_append]
    omega
  rw [StandardFn.slice, hlength, List.take_left, hstart, Int.toNat_natCast, List.drop_left]

/-- What is done with a sequence is what the functions compute. -/
theorem Acts.effect_eq {op : ListOp F} {xs : List (Variable F)} {e : ListEffect F}
    (h : op.Acts xs e) : op.effect xs = e := by
  cases h with
  | add | clear | endless => rfl
  | contains hfound =>
    refine congrArg (fun b => ListEffect.gives (.bool b) xs) (Bool.eq_iff_iff.mpr ?_)
    rw [hfound, List.any_eq_true]
  | get hindex => exact atIndex_of_toInt hindex
  | set hindex =>
    refine (atIndex_of_toInt hindex).trans ?_
    rw [List.set_append_right _ _ (Nat.le_refl _), Nat.sub_self, List.set_cons_zero]
  | remove hindex =>
    refine (atIndex_of_toInt hindex).trans ?_
    rw [List.eraseIdx_append_of_length_le (Nat.le_refl _), Nat.sub_self, List.eraseIdx_cons_zero]
  | @subList start stop front part rest hstart hstop =>
    have hrange : StandardFn.isRange start stop (front ++ part ++ rest).length = true := by
      rw [isRange_iff, List.length_append, List.length_append]
      omega
    rw [effect, if_pos hrange, slice_of_toInt hstart hstop]
  | @size n xs hn =>
    refine congrArg (fun n => ListEffect.gives (.int n) xs) ?_
    rw [← Int64.ofInt_eq_ofNat, ← hn, Int64.ofInt_toInt]
  | isEmpty hempty =>
    refine congrArg (fun b => ListEffect.gives (.bool b) xs) (Bool.eq_iff_iff.mpr ?_)
    rw [hempty, List.isEmpty_iff]
  | fails hout =>
    cases op with
    | get | set | remove => exact atIndex_of_outside hout
    | subList start stop => exact if_neg (mt isRange_iff.mp hout)
    | _ => exact absurd trivial hout

theorem acts_effect (op : ListOp F) (xs : List (Variable F)) : op.Acts xs (op.effect xs) := by
  suffices ∃ e, op.Acts xs e by
    obtain ⟨e, he⟩ := this
    rwa [he.effect_eq]
  by_cases hin : op.InBounds xs.length
  · cases op with
    | add x => exact ⟨_, .add x xs⟩
    | clear => exact ⟨_, .clear xs⟩
    | contains x => exact ⟨_, .contains List.any_eq_true⟩
    | get index =>
      obtain ⟨front, x, rest, rfl, hindex⟩ := exists_split hin
      exact ⟨_, .get hindex⟩
    | size =>
      by_cases hlength : ∃ n : Int64, n.toInt = xs.length
      · obtain ⟨n, hn⟩ := hlength
        exact ⟨_, .size hn⟩
      · exact ⟨_, .endless (not_exists.mp hlength)⟩
    | set index y =>
      obtain ⟨front, x, rest, rfl, hindex⟩ := exists_split hin
      exact ⟨_, .set hindex⟩
    | subList start stop =>
      obtain ⟨front, part, rest, rfl, hstart, hstop⟩ := exists_split_of_range hin
      exact ⟨_, .subList hstart hstop⟩
    | remove index =>
      obtain ⟨front, x, rest, rfl, hindex⟩ := exists_split hin
      exact ⟨_, .remove hindex⟩
    | isEmpty => exact ⟨_, .isEmpty List.isEmpty_iff⟩
  · exact ⟨_, .fails hin⟩

/-- An operation on a sequence comes to one thing, which the functions compute. -/
theorem acts_iff {op : ListOp F} {xs : List (Variable F)} {e : ListEffect F} :
    op.Acts xs e ↔ op.effect xs = e :=
  ⟨Acts.effect_eq, fun h => h ▸ op.acts_effect xs⟩

theorem fails_iff {op : ListOp F} {xs : List (Variable F)} :
    (∃ text, op.Acts xs (.fails text)) ↔ ¬ op.InBounds xs.length := by
  constructor
  · rintro ⟨text, h⟩
    cases h with
    | fails hout => exact hout
  · exact fun hout => ⟨_, .fails hout⟩

end ListOp

/-! ## Sequences in the heap -/

/-- The sequence that the host keeps inside an object, once it is constructed. -/
def Instance.items? (i : Instance F) : Option (List (Variable F)) :=
  match i.host with
  | some (.items xs) => some xs
  | _ => none

namespace Machine

/-- The sequences inside the objects, in the order in which the objects were made. -/
def lists (m : Machine F) : List (Option (List (Variable F))) :=
  m.heap.toList.map Instance.items?

/-- Keeps a sequence inside an object. -/
def keep (m : Machine F) (id : Nat) (xs : List (Variable F)) : Machine F :=
  { m with heap := m.heap.modify id fun i => { i with host := some (.items xs) } }

/-- A new object without fields. -/
def bare (m : Machine F) : Machine F := { m with heap := m.heap.push { fields := [] } }

variable (m : Machine F)

theorem length_lists : m.lists.length = m.heap.size := by
  rw [lists, List.length_map, Array.length_toList]

theorem getElem?_lists (id : Nat) : m.lists[id]? = m.heap[id]?.map Instance.items? := by
  rw [lists, List.getElem?_map, Array.getElem?_toList]

theorem lists_keep (id : Nat) (xs : List (Variable F)) :
    (m.keep id xs).lists = m.lists.set id (some xs) := by
  refine List.ext_getElem? fun k => ?_
  rw [getElem?_lists, List.getElem?_set, getElem?_lists, keep, length_lists]
  dsimp only
  rw [Array.getElem?_modify]
  by_cases hk : id = k
  · subst hk
    rw [if_pos rfl, if_pos rfl]
    split
    · next hlt =>
      rw [Array.getElem?_eq_getElem hlt]
      rfl
    · next hge =>
      rw [Array.getElem?_eq_none (Nat.le_of_not_lt hge)]
      rfl
  · rw [if_neg hk, if_neg hk]

/-- To keep the sequence that an object has anyway changes nothing. -/
theorem keep_self {id : Nat} {xs : List (Variable F)} (h : m.lists[id]? = some (some xs)) :
    m.keep id xs = m := by
  rw [getElem?_lists, Option.map_eq_some_iff] at h
  obtain ⟨i, hi, hitems⟩ := h
  have hsame : ({ i with host := some (.items xs) } : Instance F) = i := by
    obtain ⟨fields, _ | ⟨_ | _⟩⟩ := i <;> cases hitems
    rfl
  suffices (m.keep id xs).heap = m.heap from
    congrArg (fun heap => { m with heap }) this
  refine Array.ext_getElem? fun k => ?_
  rw [keep, Array.getElem?_modify]
  split
  · next hk =>
    rw [← hk, hi, Option.map_some, hsame]
  · rfl

theorem lists_bare : m.bare.lists = m.lists ++ [none] := by
  rw [lists, lists, bare, Array.toList_push, List.map_append]
  rfl

/--
A machine comes after another one and differs from it in what the host keeps inside some objects and
in new objects, and in nothing else.
-/
structure ListsChange (m m' : Machine F) (changed : List Nat) : Prop where
  rest : m' = { m with heap := m'.heap }
  fields : ∀ (id : Nat) (i : Instance F), m.heap[id]? = some i →
    ∃ i', m'.heap[id]? = some i' ∧ i'.fields = i.fields
  others : ∀ (id : Nat) (i : Instance F), m.heap[id]? = some i → id ∉ changed →
    m'.heap[id]? = some i

namespace ListsChange

variable {m m' m'' : Machine F} {changed changed' : List Nat}

theorem refl (m : Machine F) (changed : List Nat) : m.ListsChange m changed :=
  ⟨rfl, fun _ i hi => ⟨i, hi, rfl⟩, fun _ _ hi _ => hi⟩

theorem trans (h : m.ListsChange m' changed) (h' : m'.ListsChange m'' changed') :
    m.ListsChange m'' (changed ++ changed') where
  rest := h'.rest.trans (congrArg (fun n : Machine F => { n with heap := m''.heap }) h.rest)
  fields id i hi := by
    obtain ⟨i', hi', hfields⟩ := h.fields id i hi
    obtain ⟨i'', hi'', hfields'⟩ := h'.fields id i' hi'
    exact ⟨i'', hi'', hfields'.trans hfields⟩
  others id i hi hid := by
    rw [List.mem_append, not_or] at hid
    exact h'.others id i (h.others id i hi hid.1) hid.2

theorem keep (m : Machine F) (id : Nat) (xs : List (Variable F)) :
    m.ListsChange (m.keep id xs) [id] where
  rest := rfl
  fields k i hi := by
    rw [Machine.keep, Array.getElem?_modify, hi]
    split
    · exact ⟨_, rfl, rfl⟩
    · exact ⟨i, rfl, rfl⟩
  others k i hi hk := by
    rw [Machine.keep, Array.getElem?_modify, if_neg fun h => hk (List.mem_singleton.mpr h.symm), hi]

theorem bare (m : Machine F) : m.ListsChange m.bare [] := by
  have hold : ∀ (k : Nat) (i : Instance F), m.heap[k]? = some i → m.bare.heap[k]? = some i := by
    intro k i hi
    obtain ⟨hlt, rfl⟩ := Array.getElem?_eq_some_iff.mp hi
    rw [Machine.bare, Array.getElem?_push_lt hlt]
  exact ⟨rfl, fun k i hi => ⟨i, hold k i hi, rfl⟩, fun k i hi _ => hold k i hi⟩

/-- What happens to new objects is no change of old ones. -/
theorem mono (h : m.ListsChange m' changed)
    (hold : ∀ id ∈ changed, id < m.heap.size → id ∈ changed') : m.ListsChange m' changed' :=
  ⟨h.rest, h.fields, fun id i hi hid => h.others id i hi fun hmem =>
    hid (hold id hmem (Array.getElem?_eq_some_iff.mp hi).1)⟩

end ListsChange

end Machine

/-! ## What the host does to the heap -/

namespace Engine

variable (eng : Engine StandardFn) (calls : Calls StandardFn) (span : Span) {α : Type}
  {m : Machine StandardFn} {o : ObjectRef StandardFn} {call : HostCall StandardFn}

/-- A function that asks for the items of the receiver goes on with the sequence in it. -/
theorem runHost_items (hthis : call.this = .object o)
    (next : ObjectRef StandardFn × List (Variable StandardFn) → HostProgram StandardFn α) :
    eng.runHost calls span (call.items >>= next) m =
      match (m.lists[o.id]?).join with
      | some xs => eng.runHost calls span (next (o, xs)) m
      | none => eng.runHost calls span (HostCall.uninitialized o) m := by
  have hget : ∀ next : Option (HostState StandardFn) → HostProgram StandardFn α,
      eng.runHost calls span (.getState o next) m =
        eng.runHost calls span (next ((m.heap[o.id]?).bind Instance.host)) m := fun _ => rfl
  obtain ⟨c, this, args, place⟩ := call
  cases hthis
  refine (hget _).trans ?_
  rw [Machine.getElem?_lists]
  cases m.heap[o.id]? with
  | none => rfl
  | some i =>
    obtain ⟨fields, _ | ⟨xs | n⟩⟩ := i <;> rfl

/-- Objects of a class without fields are made without looking at the rest of the machine. -/
theorem allocate_bare {c : RuntimeClass StandardFn} (hc : c.allFields = []) :
    eng.allocate c span m = .ok ⟨m.heap.size, c⟩ m.bare := by
  rw [allocate, hc]
  rfl

/-- What an effect on the sequence of an object is on the machine. -/
def carry (o : ObjectRef StandardFn) (c : RuntimeClass StandardFn) :
    ListEffect StandardFn → EvalM StandardFn (Value StandardFn)
  | .gives result items => fun m => .ok result (m.keep o.id items)
  | .copies part => fun m => .ok (.object ⟨m.heap.size, c⟩) (m.bare.keep m.heap.size part)
  | .fails text => eng.invalid (.host text) span

/-- The function of an operation, called on an object that is not constructed, fails. -/
theorem callHost_unconstructed (op : ListOp StandardFn) (hxs : (m.lists[o.id]?).join = none)
    (c index : RuntimeClass StandardFn) :
    eng.callHost calls op.function ⟨c, .object o, op.args index, span⟩ m =
      eng.invalid (.host (o.cls.text ++ " instance was not initialized by its constructor"))
        span m := by
  have hitems : ∀ next : ObjectRef StandardFn × List (Variable StandardFn) →
      HostProgram StandardFn (Value StandardFn),
      eng.runHost calls span
          ((⟨c, .object o, op.args index, span⟩ : HostCall StandardFn).items >>= next) m =
        eng.runHost calls span (HostCall.uninitialized o : HostProgram StandardFn (Value _)) m := by
    intro next
    rw [runHost_items eng calls span rfl, hxs]
  cases op <;> exact hitems _

/-- The function of an operation, called on a list, does with its sequence what is computed. -/
theorem callHost_function (op : ListOp StandardFn) {xs : List (Variable StandardFn)}
    (hxs : m.lists[o.id]? = some (some xs)) {c : RuntimeClass StandardFn} (hc : c.allFields = [])
    (index : RuntimeClass StandardFn) :
    eng.callHost calls op.function ⟨c, .object o, op.args index, span⟩ m =
      eng.carry span o c (op.effect xs) m := by
  have hitems : ∀ next : ObjectRef StandardFn × List (Variable StandardFn) →
      HostProgram StandardFn (Value StandardFn),
      eng.runHost calls span
          ((⟨c, .object o, op.args index, span⟩ : HostCall StandardFn).items >>= next) m =
        eng.runHost calls span (next (o, xs)) m := by
    intro next
    rw [runHost_items eng calls span rfl, hxs]
    rfl
  have hreads : ∀ v : Value StandardFn, eng.runHost calls span (.done v) m =
      eng.carry span o c (.gives v xs) m :=
    fun v => congrArg (EStateM.Result.ok v) (m.keep_self hxs).symm
  cases op with
  | add | clear => exact hitems _
  | contains | size | isEmpty => exact (hitems _).trans (hreads _)
  | get i =>
    refine (hitems _).trans ?_
    rw [ListOp.effect, ListOp.atIndex]
    cases hposition : StandardFn.position? i xs.length with
    | none => simp only [hposition]; rfl
    | some k =>
      cases hx : xs[k]? with
      | none => simp only [hposition, Option.bind_some, hx]; rfl
      | some x =>
        simp only [hposition, Option.bind_some, hx]
        exact hreads _
  | set i _ | remove i =>
    refine (hitems _).trans ?_
    rw [ListOp.effect, ListOp.atIndex]
    cases hposition : StandardFn.position? i xs.length with
    | none => simp only [hposition]; rfl
    | some k => cases hx : xs[k]? <;> simp only [hposition, hx] <;> rfl
  | subList start stop =>
    refine (hitems _).trans ?_
    rw [ListOp.effect]
    dsimp only
    split
    · show EStateM.bind (eng.allocate c span) _ m = _
      rw [EStateM.bind, allocate_bare eng span hc]
      rfl
    · rfl

end Engine

/-! ## The class of lists -/

/-- The static view of a class has no fields. -/
theorem ClassTable.Views.allFields_eq_nil {t : ClassTable F} {name : String} {c : RuntimeClass F}
    (h : t.Views name c) : c.allFields = [] := by
  induction h with
  | root => rfl
  | derived _ _ _ ih => exact ih

/-- Neither lists nor what they extend have fields. -/
theorem ClassTable.allFields_list {p : Program} {t : ClassTable StandardFn}
    (h : ClassTable.build p standard = .ok t) {c : RuntimeClass StandardFn} (hc : t.Offers c)
    (hname : c.name = Ty.listName) : c.allFields = [] := by
  obtain ⟨n, hn, hlist, -⟩ := NativeRegistry.exists_list
  rcases hc with hmade | ⟨name, hview⟩
  · exact List.flatMap_eq_nil_iff.mpr fun l hl =>
      (ClassTable.layers_native h hn hmade.instantiates (hname.trans hlist.symm) l hl).1
  · exact hview.allFields_eq_nil

/-! ## Calls of the host -/

/-- What a host can do with lists. -/
inductive ListAction (F : Type) where
  /-- Makes an object that is not constructed yet. -/
  | allocate (c : RuntimeClass F) (span : Span)
  /-- Calls the constructor on an object. -/
  | construct (o : ObjectRef F) (c : RuntimeClass F) (span : Span)
  /-- Calls an operation on an object. -/
  | call (op : ListOp F) (o : ObjectRef F) (c index : RuntimeClass F) (span : Span)

namespace ListAction

/-- The class of lists on which an action is called. -/
def cls : ListAction F → RuntimeClass F
  | allocate c _ | construct _ c _ | call _ _ c _ _ => c

/-- The object whose sequence may change. -/
def changed : ListAction F → List Nat
  | allocate _ _ => []
  | construct o _ _ | call _ o _ _ _ => [o.id]

end ListAction

/-- The sequences inside some objects, in the order in which the objects were made. -/
abbrev Sequences (F : Type) := List (Option (List (Variable F)))

namespace ListEffect

/-- What is answered: a value, or a message. A sequence of its own is put into a new object. -/
def answer (c : RuntimeClass F) (S : Sequences F) : ListEffect F → Except String (Value F)
  | gives result _ => .ok result
  | copies _ => .ok (.object ⟨S.length, c⟩)
  | fails text => .error text

/-- The sequences afterwards, of which one was in a given place. -/
def after (id : Nat) (S : Sequences F) : ListEffect F → Sequences F
  | gives _ items => S.set id (some items)
  | copies part => S ++ [some part]
  | fails _ => S

end ListEffect

namespace ListAction

/-- What an action does with the sequences inside objects, and the answer. -/
inductive Step : ListAction F → Sequences F → Except String (Value F) → Sequences F → Prop
  | allocate {c : RuntimeClass F} {span : Span} {S : Sequences F} :
      Step (allocate c span) S (.ok (.object ⟨S.length, c⟩)) (S ++ [none])
  | construct {o : ObjectRef F} {c : RuntimeClass F} {span : Span} {S : Sequences F} :
      Step (construct o c span) S (.ok .null) (S.set o.id (some []))
  | call {op : ListOp F} {o : ObjectRef F} {c index : RuntimeClass F} {span : Span}
      {S : Sequences F} {xs : List (Variable F)} {e : ListEffect F} :
      S[o.id]? = some (some xs) → op.Acts xs e →
      Step (call op o c index span) S (e.answer c S) (e.after o.id S)
  | unconstructed {op : ListOp F} {o : ObjectRef F} {c index : RuntimeClass F} {span : Span}
      {S : Sequences F} :
      (∀ xs, S[o.id]? ≠ some (some xs)) →
      Step (call op o c index span) S
        (.error (o.cls.text ++ " instance was not initialized by its constructor")) S

/-- What a history of actions does with the sequences, and the answers. -/
inductive Steps : List (ListAction F) → Sequences F → List (Except String (Value F)) →
    Sequences F → Prop
  | nil {S : Sequences F} : Steps [] S [] S
  | cons {a : ListAction F} {rest : List (ListAction F)} {S S' S'' : Sequences F}
      {answer : Except String (Value F)} {answers : List (Except String (Value F))} :
      Step a S answer S' → Steps rest S' answers S'' → Steps (a :: rest) S (answer :: answers) S''

theorem Step.unique {a : ListAction F} {S S₁ S₂ : Sequences F}
    {answer₁ answer₂ : Except String (Value F)} (h₁ : Step a S answer₁ S₁)
    (h₂ : Step a S answer₂ S₂) : answer₁ = answer₂ ∧ S₁ = S₂ := by
  cases h₁ with
  | allocate | construct =>
    cases h₂
    exact ⟨rfl, rfl⟩
  | call hxs he =>
    cases h₂ with
    | call hxs' he' =>
      cases hxs.symm.trans hxs'
      cases he.effect_eq.symm.trans he'.effect_eq
      exact ⟨rfl, rfl⟩
    | unconstructed hnone => exact absurd hxs (hnone _)
  | unconstructed hnone =>
    cases h₂ with
    | call hxs' _ => exact absurd hxs' (hnone _)
    | unconstructed => exact ⟨rfl, rfl⟩

/-- What is done with the sequences and what is answered is determined. -/
theorem Steps.unique {actions : List (ListAction F)} {S S₁ S₂ : Sequences F}
    {answers₁ answers₂ : List (Except String (Value F))} (h₁ : Steps actions S answers₁ S₁)
    (h₂ : Steps actions S answers₂ S₂) : answers₁ = answers₂ ∧ S₁ = S₂ := by
  induction h₁ generalizing answers₂ S₂ with
  | nil =>
    cases h₂
    exact ⟨rfl, rfl⟩
  | cons hstep _ ih =>
    cases h₂ with
    | cons hstep' hrest' =>
      obtain ⟨rfl, rfl⟩ := hstep.unique hstep'
      obtain ⟨rfl, rfl⟩ := ih hrest'
      exact ⟨rfl, rfl⟩

/-! ## Actions of an engine -/

/-- Carries an action out. -/
def perform (eng : Engine StandardFn) (calls : Calls StandardFn) :
    ListAction StandardFn → EvalM StandardFn (Value StandardFn)
  | allocate c span => do return .object (← eng.allocate c span)
  | construct o c span => eng.callHost calls .listNew ⟨c, .object o, [], span⟩
  | call op o c index span => eng.callHost calls op.function ⟨c, .object o, op.args index, span⟩

/-- An action answers with a value, or fails with a message of the host. -/
def Answers (eng : Engine StandardFn) (calls : Calls StandardFn) (a : ListAction StandardFn)
    (m : Machine StandardFn) (answer : Except String (Value StandardFn))
    (m' : Machine StandardFn) : Prop :=
  match answer with
  | .ok v => a.perform eng calls m = .ok v m'
  | .error text => ∃ e, a.perform eng calls m = .error (.error e) m' ∧
      e.fault = .invalid (.host text)

/-- Carries out a history of actions. After a failure the host goes on. -/
inductive Runs (eng : Engine StandardFn) (calls : Calls StandardFn) :
    List (ListAction StandardFn) → Machine StandardFn →
      List (Except String (Value StandardFn)) → Machine StandardFn → Prop
  | nil {m : Machine StandardFn} : Runs eng calls [] m [] m
  | cons {a : ListAction StandardFn} {rest : List (ListAction StandardFn)}
      {m m' m'' : Machine StandardFn} {answer : Except String (Value StandardFn)}
      {answers : List (Except String (Value StandardFn))} :
      a.Answers eng calls m answer m' → Runs eng calls rest m' answers m'' →
      Runs eng calls (a :: rest) m (answer :: answers) m''

variable (eng : Engine StandardFn) (calls : Calls StandardFn)

/-- An action of the engine does with the sequences what it should, and changes nothing else. -/
theorem exists_answer (a : ListAction StandardFn) (ha : a.cls.allFields = [])
    (m : Machine StandardFn) : ∃ answer m', a.Answers eng calls m answer m' ∧
      Step a m.lists answer m'.lists ∧ m.ListsChange m' a.changed := by
  cases a with
  | allocate c span =>
    refine ⟨.ok (.object ⟨m.heap.size, c⟩), m.bare, ?_, ?_, .bare m⟩
    · have hmade := eng.allocate_bare (c := c) (m := m) span ha
      show EStateM.bind (eng.allocate c span) _ m = _
      rw [EStateM.bind, hmade]
      rfl
    · rw [m.lists_bare, ← m.length_lists]
      exact .allocate
  | construct o c span =>
    refine ⟨.ok .null, m.keep o.id [], rfl, ?_, .keep m o.id []⟩
    rw [m.lists_keep]
    exact .construct
  | call op o c index span =>
    cases hxs : (m.lists[o.id]?).join with
    | none =>
      have hnone : ∀ xs, m.lists[o.id]? ≠ some (some xs) := by
        intro xs heq
        rw [heq] at hxs
        cases hxs
      exact ⟨.error _, m, ⟨_, eng.callHost_unconstructed calls span op hxs c index, rfl⟩,
        .unconstructed hnone, .refl m _⟩
    | some xs =>
      have hxs : m.lists[o.id]? = some (some xs) := Option.join_eq_some_iff.mp hxs
      have hcall := eng.callHost_function calls span op hxs ha index
      have hstep : Step (.call op o c index span) m.lists _ _ := .call hxs (op.acts_effect xs)
      cases heffect : op.effect xs with
      | gives v ys =>
        rw [heffect] at hcall hstep
        refine ⟨.ok v, m.keep o.id ys, hcall, ?_, .keep m o.id ys⟩
        rw [m.lists_keep]
        exact hstep
      | copies part =>
        rw [heffect] at hcall hstep
        refine ⟨.ok (.object ⟨m.heap.size, c⟩), m.bare.keep m.heap.size part, hcall, ?_, ?_⟩
        · rw [Machine.lists_keep, m.lists_bare, ← m.length_lists,
            List.set_append_right _ _ (Nat.le_refl _), Nat.sub_self, List.set_cons_zero]
          exact hstep
        · refine Machine.ListsChange.mono ((Machine.ListsChange.bare m).trans
            (.keep m.bare m.heap.size part)) fun id hid hold => ?_
          rw [List.nil_append, List.mem_singleton] at hid
          omega
      | fails text =>
        rw [heffect] at hcall hstep
        exact ⟨.error text, m, ⟨_, hcall, rfl⟩, hstep, .refl m _⟩

end ListAction

/--
The class of lists refines mathematical sequences. On whatever machine and whichever lists a host
carries out a history of actions, through whatever references and with whatever indexes, the answers
and the sequences inside all objects come to be what the operations on sequences make of them: they
are determined by that, and whether an operation fails is part of it. Nothing else is changed: no
field of an object, nothing in an object that no action was called on, and no other part of the
machine.
-/
theorem lists_refine_sequences {p : Program} {eng : Engine StandardFn} (hserves : eng.Serves p)
    (calls : Calls StandardFn) {actions : List (ListAction StandardFn)}
    (hactions : ∀ a ∈ actions, eng.table.Offers a.cls ∧ a.cls.name = Ty.listName)
    (m : Machine StandardFn) :
    ∃ answers m', ListAction.Runs eng calls actions m answers m' ∧
      ListAction.Steps actions m.lists answers m'.lists ∧
      (∀ answers' S, ListAction.Steps actions m.lists answers' S →
        answers' = answers ∧ S = m'.lists) ∧
      m.ListsChange m' (actions.flatMap ListAction.changed) := by
  induction actions generalizing m with
  | nil => exact ⟨[], m, .nil, .nil, fun _ _ h => h.unique .nil, .refl m []⟩
  | cons a rest ih =>
    obtain ⟨hoffers, hname⟩ := hactions a (List.mem_cons_self ..)
    have hfields := ClassTable.allFields_list hserves.build hoffers hname
    obtain ⟨answer, m₁, hanswer, hstep, hchange⟩ := a.exists_answer eng calls hfields m
    obtain ⟨answers, m', hruns, hsteps, -, hchanges⟩ :=
      ih (fun b hb => hactions b (List.mem_cons_of_mem _ hb)) m₁
    have hall : ListAction.Steps (a :: rest) m.lists (answer :: answers) m'.lists :=
      .cons hstep hsteps
    exact ⟨answer :: answers, m', .cons hanswer hruns, hall, fun _ _ h => h.unique hall,
      hchange.trans hchanges⟩

open Build in
/-- A program that makes no lists by itself. -/
def idleProgram : Program := program [{ name := ident "Main", methods := [mainMethod []] }]

/-- A list of two numbers, a part of it that gets another number, and an index out of bounds. -/
def shelfActions (c int : RuntimeClass StandardFn) : List (ListAction StandardFn) :=
  let shelf : ObjectRef StandardFn := ⟨0, c⟩
  let part : ObjectRef StandardFn := ⟨1, c⟩
  [.allocate c {}, .construct shelf c {}, .call (.add ⟨int, .int 5⟩) shelf c int {},
   .call (.add ⟨int, .int 6⟩) shelf c int {}, .call (.subList 0 1) shelf c int {},
   .call (.set 0 ⟨int, .int 7⟩) part c int {}, .call (.get 0) shelf c int {},
   .call (.remove 2) shelf c int {}]

theorem lists_refine_sequences_shelf : ∃ (eng : Engine StandardFn) (c int : RuntimeClass StandardFn)
    (m : Machine StandardFn), Engine.new idleProgram standard = .ok eng ∧
    (eng.table.Offers c ∧ c.asTy = .cls Ty.listName [.int]) ∧ int.asTy = .int ∧
    ListAction.Runs eng eng.calls (shelfActions c int) {}
      [.ok (.object ⟨0, c⟩), .ok .null, .ok .null, .ok .null, .ok (.object ⟨1, c⟩), .ok (.int 5),
       .ok (.int 5), .error "Index 2 out of bounds for length 2"] m ∧
    m.lists = [some [⟨int, .int 5⟩, ⟨int, .int 6⟩], some [⟨int, .int 7⟩]] := by
  have hengine : (Engine.new idleProgram standard).toBool = true := by decide +kernel
  cases hnew : Engine.new idleProgram standard with
  | error e => simp [hnew, Except.toBool] at hengine
  | ok eng =>
    have hserves : eng.Serves idleProgram := ⟨eng, hnew, rfl⟩
    have hcomplete := ClassTable.complete_of_build hserves.build
    have hintArity : eng.table.arity? Ty.intName = some 0 :=
      congrArg (Option.map _) (ClassTable.get?_primitive_standard hserves.build .int)
    have hint : Ty.int.Formed eng.table.arity? [] := Ty.formed_cls.mpr ⟨hintArity, Ty.allFormed_nil⟩
    obtain ⟨n, hn, hlist, hgenerics⟩ : ∃ n ∈ standard.classes, n.fullName = Ty.listName ∧
        n.generics.length = 1 := by
      decide +kernel
    have hlistArity : eng.table.arity? Ty.listName = some 1 := by
      rw [← hlist, ClassTable.arity?, ClassTable.get?_standard hserves.build hn]
      exact congrArg some hgenerics
    have hlistTy : (ClassTy.toTy ⟨Ty.listName, [.int]⟩).Formed eng.table.arity? [] :=
      Ty.formed_cls.mpr ⟨hlistArity, Ty.allFormed_cons.mpr ⟨hint, Ty.allFormed_nil⟩⟩
    obtain ⟨c, hc⟩ := hcomplete.exists_instantiates hlistTy
    obtain ⟨int, hi⟩ := hcomplete.exists_instantiates
      (show (ClassTy.toTy ⟨Ty.intName, []⟩).Formed eng.table.arity? [] from hint)
    have hoffers : eng.table.Offers c ∧ c.name = Ty.listName :=
      ⟨.inl ⟨_, hc⟩, congrArg ClassTy.name hc.ty_eq⟩
    have hactions : ∀ a ∈ shelfActions c int,
        eng.table.Offers a.cls ∧ a.cls.name = Ty.listName := by
      simpa [shelfActions, ListAction.cls] using hoffers
    obtain ⟨answers, m, hruns, -, hunique, -⟩ :=
      lists_refine_sequences hserves eng.calls hactions {}
    have hfails : ListOp.Acts (.remove 2) [⟨int, .int 5⟩, ⟨int, .int 6⟩]
        (.fails "Index 2 out of bounds for length 2") := by
      have htext : (.remove 2 : ListOp StandardFn).complaint 2 =
          "Index 2 out of bounds for length 2" := by decide
      have hout : ¬ (0 ≤ (2 : Int64).toInt ∧ (2 : Int64).toInt < ((2 : Nat) : Int)) := by decide
      rw [← htext]
      exact @ListOp.Acts.fails _ (.remove 2) [_, _] hout
    have hexpected : ListAction.Steps (shelfActions c int) [] _ _ :=
      .cons .allocate <| .cons .construct <| .cons (.call rfl (.add _ _)) <|
      .cons (.call rfl (.add _ _)) <|
      .cons (.call rfl (@ListOp.Acts.subList _ 0 1 [] [_] [_] rfl rfl)) <|
      .cons (.call rfl (@ListOp.Acts.set _ 0 [] [] _ _ rfl)) <|
      .cons (.call rfl (@ListOp.Acts.get _ 0 [] [_] _ rfl)) <|
      .cons (.call rfl hfails) .nil
    obtain ⟨rfl, hS⟩ := hunique _ _ hexpected
    exact ⟨eng, c, int, m, rfl, ⟨hoffers.1, congrArg ClassTy.toTy hc.ty_eq⟩,
      congrArg ClassTy.toTy hi.ty_eq, hruns, hS.symm⟩

end Middleweight
