-- The linked list of fifo.c over an explicit heap, where `calloc` may give out the
-- memory of freed nodes again. A node keeps its `next` pointer when the neighbour
-- it points to is freed; the list is only followed along `prev`. That `calloc` can
-- fail is left out.
import Mathlib.Data.List.Nodup
import Mathlib.Data.List.Perm.Basic
import Mathlib.Logic.Function.Basic

namespace dect_prog.fifo_heap

variable {β α : Type}

/-- A pointer to a node: an address, and the allocation that it came from. When the memory is given
out again, an old pointer to it is still a pointer to a freed node. -/
structure Pointer (β : Type) where
  address : β
  allocation : Nat
  deriving DecidableEq

/-- NULL is `none`. -/
structure fifo_t (β α : Type) where
  prev : Option (Pointer β)
  next : Option (Pointer β)
  obj : α

/-- The nodes in use by their addresses, each with the allocation it came from. -/
abbrev Heap (β α : Type) : Type := β → Option (Nat × fifo_t β α)

/-- The head, with the heap and the number of calls of `calloc` so far. There is no memory for so
many nodes that `count` could overflow. -/
structure fifo_head_t (β α : Type) where
  heap : Heap β α
  allocations : Nat
  first : Option (Pointer β)
  last : Option (Pointer β)
  count : Int

/-- The node that a pointer points to, unless it was freed. -/
def load (heap : Heap β α) (p : Pointer β) : Option (fifo_t β α) :=
  match heap p.address with
  | some (allocation, node) => if allocation = p.allocation then some node else none
  | none => none

variable [DecidableEq β]

def store (heap : Heap β α) (p : Pointer β) (node : fifo_t β α) : Heap β α :=
  Function.update heap p.address (some (p.allocation, node))

def free (heap : Heap β α) (p : Pointer β) : Heap β α := Function.update heap p.address none

def fifo_new : fifo_head_t β α := ⟨fun _ => none, 0, none, none, 0⟩

/-- `address` is where `calloc` finds room for the new node. -/
def fifo_add (head : fifo_head_t β α) (address : β) (o : α) : Option (fifo_head_t β α) :=
  let new_first : Pointer β := ⟨address, head.allocations⟩
  match head.first with
  | some first => do
    -- We already have an enqueued object
    let heap := store head.heap new_first ⟨none, some first, o⟩
    let node ← load heap first
    some { head with
      heap := store heap first { node with prev := some new_first }
      allocations := head.allocations + 1
      first := some new_first
      count := head.count + 1 }
  | none =>
    -- This object is added to an empty fifo
    some { heap := store head.heap new_first ⟨none, none, o⟩
           allocations := head.allocations + 1
           first := some new_first
           last := some new_first
           count := head.count + 1 }

def fifo_get (head : fifo_head_t β α) : Option (fifo_head_t β α × α) := do
  let last ← head.last
  let node ← load head.heap last
  match node.prev with
  | some new_last =>
    -- We have an enqueued object before last
    some ({ head with heap := free head.heap last, last := some new_last, count := head.count - 1 },
      node.obj)
  | none =>
    -- We took the last object from the fifo; reset head
    some ({ head with heap := free head.heap last, first := none, last := none,
                      count := head.count - 1 }, node.obj)

def fifo_count (head : fifo_head_t β α) : Int := head.count

/-! ## Runs -/

inductive Call (β α : Type)
  | fifo_add (address : β) (o : α)
  | fifo_get

/-- The head after a call, and the object that it returned. -/
def step (head : fifo_head_t β α) : Call β α → Option (fifo_head_t β α × List α)
  | .fifo_add address o => (fifo_add head address o).map fun head => (head, [])
  | .fifo_get => (fifo_get head).map fun (head, o) => (head, [o])

/-- One call after the other, and the objects that they returned. A call that follows a pointer to a
freed node, or NULL, is undefined. -/
def run : fifo_head_t β α → List (Call β α) → Option (fifo_head_t β α × List α)
  | head, [] => some (head, [])
  | head, c :: cs => do
    let (head, out) ← step head c
    let (head, outs) ← run head cs
    some (head, out ++ outs)

/-- The allocator gives an address that is not in use, and the caller looked at the count. -/
def Allowed (head : fifo_head_t β α) : Call β α → Prop
  | .fifo_add address _ => head.heap address = none
  | .fifo_get => fifo_count head > 0

/-- Every call is allowed where it is made. -/
def AllAllowed : fifo_head_t β α → List (Call β α) → Prop
  | _, [] => True
  | head, c :: cs =>
    Allowed head c ∧ match step head c with
      | some (head, _) => AllAllowed head cs
      | none => True

/-- The objects that were added, the oldest first. -/
def added (cs : List (Call β α)) : List α :=
  cs.filterMap fun
    | .fifo_add _ o => some o
    | .fifo_get => none

/-! ## The queue that a list stands for -/

/-- The pointers lead to nodes with the objects, the oldest first, and each node points with `prev`
to the one that was added after it. Nothing is said about `next`. -/
def Chain (heap : Heap β α) : List (Pointer β) → List α → Prop
  | [], [] => True
  | p :: ps, x :: xs => (∃ next, load heap p = some ⟨ps.head?, next, x⟩) ∧ Chain heap ps xs
  | _, _ => False

/-- The pointers to the nodes inside, which are at different addresses, and nothing else is in
use. -/
structure Linked (head : fifo_head_t β α) (ps : List (Pointer β)) (xs : List α) : Prop where
  chain : Chain head.heap ps xs
  nodup : (ps.map Pointer.address).Nodup
  in_use : ∀ b, head.heap b ≠ none ↔ b ∈ ps.map Pointer.address
  first : head.first = ps.getLast?
  last : head.last = ps.head?
  count : head.count = xs.length

/-- The head stands for the queue `xs`, the oldest object first. -/
def Rep (head : fifo_head_t β α) (xs : List α) : Prop := ∃ ps, Linked head ps xs

@[simp] theorem load_store (heap : Heap β α) (p : Pointer β) (node : fifo_t β α) :
    load (store heap p node) p = some node := by
  simp [load, store]

theorem load_store_ne {heap : Heap β α} {p q : Pointer β} (node : fifo_t β α)
    (h : q.address ≠ p.address) : load (store heap p node) q = load heap q := by
  unfold load store
  rw [Function.update_of_ne h]

theorem load_free_ne {heap : Heap β α} {p q : Pointer β} (h : q.address ≠ p.address) :
    load (free heap p) q = load heap q := by
  unfold load free
  rw [Function.update_of_ne h]

theorem store_in_use (heap : Heap β α) (p : Pointer β) (node : fifo_t β α) (b : β) :
    store heap p node b ≠ none ↔ b = p.address ∨ heap b ≠ none := by
  unfold store
  by_cases hb : b = p.address
  · rw [hb, Function.update_self]
    simp
  · rw [Function.update_of_ne hb]
    simp [hb]

theorem free_in_use (heap : Heap β α) (p : Pointer β) (b : β) :
    free heap p b ≠ none ↔ b ≠ p.address ∧ heap b ≠ none := by
  unfold free
  by_cases hb : b = p.address
  · rw [hb, Function.update_self]
    simp
  · rw [Function.update_of_ne hb]
    simp [hb]

omit [DecidableEq β] in
/-- Nodes at other addresses make no difference. -/
theorem Chain.congr {heap heap' : Heap β α} {ps : List (Pointer β)} :
    ∀ {xs : List α}, Chain heap ps xs → (∀ p ∈ ps, load heap' p = load heap p) →
      Chain heap' ps xs := by
  induction ps with
  | nil =>
    intro xs h _
    match xs, h with
    | [], _ => trivial
  | cons p ps ih =>
    intro xs h hsame
    match xs, h with
    | x :: xs, ⟨⟨next, hnode⟩, hrest⟩ =>
      obtain ⟨hp, hsame⟩ := List.forall_mem_cons.mp hsame
      exact ⟨⟨next, by rw [hp, hnode]⟩, ih hrest hsame⟩

omit [DecidableEq β] in
theorem Chain.load {heap : Heap β α} {ps : List (Pointer β)} :
    ∀ {xs : List α}, Chain heap ps xs → ∀ p ∈ ps, ∃ node, fifo_heap.load heap p = some node := by
  induction ps with
  | nil =>
    intro xs _ p hp
    cases hp
  | cons q ps ih =>
    intro xs h p hp
    match xs, h with
    | x :: xs, ⟨⟨next, hnode⟩, hrest⟩ =>
      rcases List.mem_cons.mp hp with rfl | hp
      · exact ⟨_, hnode⟩
      · exact ih hrest p hp

/-- A new node at the end, to which the one before it points. -/
theorem Chain.concat {heap : Heap β α} {ps : List (Pointer β)} {first p : Pointer β} {o : α}
    {node : fifo_t β α} {next : Option (Pointer β)} (hnode : fifo_heap.load heap first = some node)
    (hnew : fifo_heap.load heap p = some ⟨none, next, o⟩) (hp : p.address ≠ first.address) :
    ∀ {xs : List α}, Chain heap (ps ++ [first]) xs →
      ((ps ++ [first]).map Pointer.address).Nodup →
      Chain (store heap first { node with prev := some p }) (ps ++ [first] ++ [p]) (xs ++ [o]) := by
  induction ps with
  | nil =>
    intro xs h _
    match xs, h with
    | [x], ⟨⟨next', hx⟩, _⟩ =>
      rw [hnode] at hx
      cases hx
      refine ⟨⟨next', ?_⟩, ⟨next, ?_⟩, trivial⟩
      · rw [load_store]
        rfl
      · rw [load_store_ne _ hp, hnew]
        rfl
    | _ :: _ :: _, ⟨_, h⟩ => cases h
  | cons q ps ih =>
    intro xs h hnodup
    rw [List.cons_append, List.map_cons, List.nodup_cons] at hnodup
    match xs, h with
    | x :: xs, ⟨⟨next', hx⟩, hrest⟩ =>
      refine ⟨⟨next', ?_⟩, ih hrest hnodup.2⟩
      have hne : q.address ≠ first.address := by
        intro heq
        exact hnodup.1 (by rw [heq]; simp)
      rw [load_store_ne _ hne, hx]
      cases ps <;> rfl

/-! ## The functions -/

omit [DecidableEq β] in
theorem fifo_new.spec : Rep (fifo_new : fifo_head_t β α) [] :=
  ⟨[], trivial, .nil, by simp [fifo_new], rfl, rfl, rfl⟩

theorem fifo_add.spec {head : fifo_head_t β α} {xs : List α} (h : Rep head xs) {address : β}
    (hfree : head.heap address = none) (o : α) :
    ∃ head', fifo_add head address o = some head' ∧ Rep head' (xs ++ [o]) := by
  obtain ⟨ps, hchain, hnodup, hin, hfirst, hlast, hcount⟩ := h
  have hcount' : head.count + 1 = ((xs ++ [o]).length : Nat) := by
    rw [hcount, List.length_append, List.length_singleton]
    omega
  have hnew : address ∉ ps.map Pointer.address := fun hmem => (hin address).mpr hmem hfree
  rcases List.eq_nil_or_concat' ps with rfl | ⟨ps, first, rfl⟩
  · -- The first object.
    have hxs : xs = [] := by
      match xs, hchain with
      | [], _ => rfl
    subst hxs
    refine ⟨_, by rw [fifo_add, hfirst]; rfl, [⟨address, head.allocations⟩], ?_⟩
    refine ⟨⟨⟨none, load_store ..⟩, trivial⟩, by simp, fun b => ?_, rfl, rfl, hcount'⟩
    rw [store_in_use, hin]
    simp
  · rw [List.getLast?_concat] at hfirst
    -- The new node is at an address of its own, so those inside are as they were.
    have hsame : ∀ p ∈ ps ++ [first],
        load (store head.heap ⟨address, head.allocations⟩ ⟨none, some first, o⟩) p =
          load head.heap p := by
      intro p hp
      refine load_store_ne _ fun heq => hnew ?_
      rw [← show p.address = address from heq]
      exact List.mem_map_of_mem hp
    have hchain' := hchain.congr hsame
    obtain ⟨node, hnode⟩ := hchain'.load first (by simp)
    have hne : address ≠ first.address := by
      intro heq
      exact hnew (by rw [heq]; simp)
    refine ⟨_, by rw [fifo_add, hfirst]; simp only [hnode]; rfl,
      ps ++ [first] ++ [⟨address, head.allocations⟩], ?_⟩
    refine ⟨hchain'.concat hnode (load_store ..) hne hnodup, ?_, fun b => ?_, ?_, ?_, hcount'⟩
    · rw [List.map_append, List.nodup_append]
      refine ⟨hnodup, by simp, fun a ha b hb hab => ?_⟩
      rw [hab, List.mem_singleton.mp hb] at ha
      exact hnew ha
    · dsimp only
      rw [store_in_use, store_in_use, hin]
      simp only [List.map_append, List.map_cons, List.map_nil, List.mem_append, List.mem_singleton]
      tauto
    · rw [List.getLast?_concat]
    · dsimp only
      rw [hlast]
      cases ps <;> rfl

theorem fifo_get.spec {head : fifo_head_t β α} {x : α} {xs : List α} (h : Rep head (x :: xs)) :
    ∃ head', fifo_get head = some (head', x) ∧ Rep head' xs := by
  obtain ⟨ps, hchain, hnodup, hin, hfirst, hlast, hcount⟩ := h
  match ps, hchain with
  | p :: ps, ⟨⟨next, hnode⟩, hrest⟩ =>
    have holdest : head.last = some p := hlast
    rw [List.map_cons, List.nodup_cons] at hnodup
    have hcount' : head.count - 1 = xs.length := by
      rw [hcount, List.length_cons]
      omega
    -- The freed node is none of the others.
    have hrest' : Chain (free head.heap p) ps xs := by
      refine hrest.congr fun q hq => load_free_ne fun heq => hnodup.1 ?_
      rw [← heq]
      exact List.mem_map_of_mem hq
    have hin' : ∀ b, free head.heap p b ≠ none ↔ b ∈ ps.map Pointer.address := by
      intro b
      rw [free_in_use, hin, List.map_cons, List.mem_cons]
      constructor
      · rintro ⟨hb, hmem⟩
        exact hmem.resolve_left hb
      · intro hmem
        exact ⟨fun hb => hnodup.1 (hb ▸ hmem), .inr hmem⟩
    cases ps with
    | nil =>
      refine ⟨{ head with heap := free head.heap p, first := none, last := none,
                          count := head.count - 1 }, ?_,
        [], hrest', hnodup.2, hin', rfl, rfl, hcount'⟩
      simp only [fifo_get, holdest, hnode, Option.bind_eq_bind, Option.bind_some]
      rfl
    | cons q ps =>
      refine ⟨{ head with heap := free head.heap p, last := some q, count := head.count - 1 }, ?_,
        q :: ps, hrest', hnodup.2, hin', ?_, rfl, hcount'⟩
      · simp only [fifo_get, holdest, hnode, Option.bind_eq_bind, Option.bind_some]
        rfl
      · dsimp only
        rw [hfirst, List.getLast?_cons_cons]

/-! ## An allocator that gives no address twice -/

omit [DecidableEq β] in
theorem load_in_use {heap : Heap β α} {p : Pointer β} {node : fifo_t β α}
    (h : load heap p = some node) : heap p.address ≠ none := by
  intro hnone
  simp [load, hnone] at h

/-- No other address than that of the new node comes into use. -/
theorem fifo_add.in_use {head head' : fifo_head_t β α} {address : β} {o : α}
    (h : fifo_add head address o = some head') :
    head'.allocations = head.allocations + 1 ∧
      ∀ b, head'.heap b ≠ none → b = address ∨ head.heap b ≠ none := by
  unfold fifo_add at h
  cases hfirst : head.first with
  | none =>
    rw [hfirst] at h
    cases h
    exact ⟨rfl, fun b hb => (store_in_use ..).mp hb⟩
  | some first =>
    simp only [hfirst, Option.bind_eq_bind, Option.bind_eq_some_iff] at h
    obtain ⟨node, hnode, h⟩ := h
    cases h
    refine ⟨rfl, fun b hb => ?_⟩
    rcases (store_in_use ..).mp hb with rfl | hb
    · exact (store_in_use ..).mp (load_in_use hnode)
    · exact (store_in_use ..).mp hb

theorem fifo_get.in_use {head head' : fifo_head_t β α} {o : α}
    (h : fifo_get head = some (head', o)) :
    head'.allocations = head.allocations ∧ ∀ b, head'.heap b ≠ none → head.heap b ≠ none := by
  simp only [fifo_get, Option.bind_eq_bind, Option.bind_eq_some_iff] at h
  obtain ⟨last, -, node, -, h⟩ := h
  cases hprev : node.prev with
  | none =>
    rw [hprev] at h
    cases h
    exact ⟨rfl, fun b hb => ((free_in_use ..).mp hb).2⟩
  | some new_last =>
    rw [hprev] at h
    cases h
    exact ⟨rfl, fun b hb => ((free_in_use ..).mp hb).2⟩

/-- The addresses are given out one after the other, and the head stands for the queue. -/
structure Once (head : fifo_head_t Nat α) (xs : List α) : Prop where
  rep : Rep head xs
  fresh : ∀ b, head.allocations ≤ b → head.heap b = none

theorem fifo_new.once : Once (fifo_new : fifo_head_t Nat α) [] := ⟨fifo_new.spec, fun _ _ => rfl⟩

theorem Once.count {head : fifo_head_t Nat α} {xs : List α} (h : Once head xs) :
    fifo_count head = xs.length := by
  obtain ⟨ps, hlinked⟩ := h.rep
  exact hlinked.count

theorem fifo_add.once {head : fifo_head_t Nat α} {xs : List α} (h : Once head xs) (o : α) :
    ∃ head', fifo_add head head.allocations o = some head' ∧ Once head' (xs ++ [o]) := by
  obtain ⟨head', hadd, hrep⟩ := fifo_add.spec h.rep (h.fresh _ (Nat.le_refl _)) o
  obtain ⟨hallocations, hin⟩ := fifo_add.in_use hadd
  refine ⟨head', hadd, hrep, fun b hb => ?_⟩
  by_contra hused
  rcases hin b hused with rfl | hused
  · omega
  · exact hused (h.fresh b (by omega))

theorem fifo_get.once {head : fifo_head_t Nat α} {x : α} {xs : List α} (h : Once head (x :: xs)) :
    ∃ head', fifo_get head = some (head', x) ∧ Once head' xs := by
  obtain ⟨head', hget, hrep⟩ := fifo_get.spec h.rep
  obtain ⟨hallocations, hin⟩ := fifo_get.in_use hget
  refine ⟨head', hget, hrep, fun b hb => ?_⟩
  by_contra hused
  exact hin b hused (h.fresh b (by omega))

/-- The number of nodes in use. -/
def nodes (head : fifo_head_t Nat α) : Nat :=
  (List.range head.allocations).countP fun b => (head.heap b).isSome

omit [DecidableEq β] in
theorem Chain.length_eq {heap : Heap β α} {ps : List (Pointer β)} :
    ∀ {xs : List α}, Chain heap ps xs → ps.length = xs.length := by
  induction ps with
  | nil =>
    intro xs h
    match xs, h with
    | [], _ => rfl
  | cons p ps ih =>
    intro xs h
    match xs, h with
    | x :: xs, ⟨_, hrest⟩ => exact congrArg (· + 1) (ih hrest)

/-- There is one node for each object inside. -/
theorem Once.nodes {head : fifo_head_t Nat α} {xs : List α} (h : Once head xs) :
    fifo_heap.nodes head = xs.length := by
  obtain ⟨ps, hlinked⟩ := h.rep
  have hsame : ((List.range head.allocations).filter fun b => (head.heap b).isSome).Perm
      (ps.map Pointer.address) := by
    rw [List.perm_ext_iff_of_nodup (List.nodup_range.filter _) hlinked.nodup]
    intro b
    rw [List.mem_filter, List.mem_range, ← hlinked.in_use, Option.isSome_iff_ne_none]
    refine ⟨And.right, fun hused => ⟨?_, hused⟩⟩
    by_contra hge
    exact hused (h.fresh b (Nat.not_lt.mp hge))
  rw [fifo_heap.nodes, List.countP_eq_length_filter, hsame.length_eq, List.length_map,
    hlinked.chain.length_eq]

/-! ## Sequences of calls -/

/-- A call that is allowed adds its object at one end or takes one off at the other. -/
theorem step.spec {head : fifo_head_t β α} {xs : List α} (h : Rep head xs) {c : Call β α}
    (hc : Allowed head c) :
    ∃ head' out xs', step head c = some (head', out) ∧ Rep head' xs' ∧
      xs ++ added [c] = out ++ xs' := by
  cases c with
  | fifo_add address o =>
    obtain ⟨head', hadd, h'⟩ := fifo_add.spec h hc o
    exact ⟨head', [], xs ++ [o], by rw [step, hadd]; rfl, h', rfl⟩
  | fifo_get =>
    cases xs with
    | nil =>
      obtain ⟨ps, hlinked⟩ := h
      have hpos : head.count > 0 := hc
      rw [hlinked.count, List.length_nil] at hpos
      exact absurd hpos (by decide)
    | cons x xs =>
      obtain ⟨head', hget, h'⟩ := fifo_get.spec h
      exact ⟨head', [x], xs, by rw [step, hget]; rfl, h', by simp [added]⟩

theorem run.spec {cs : List (Call β α)} :
    ∀ {head : fifo_head_t β α} {xs : List α}, Rep head xs → AllAllowed head cs →
      ∃ head' out xs', run head cs = some (head', out) ∧ Rep head' xs' ∧
        xs ++ added cs = out ++ xs' := by
  induction cs with
  | nil =>
    intro head xs h _
    exact ⟨head, [], xs, rfl, h, by simp [added]⟩
  | cons c cs ih =>
    intro head xs h hall
    obtain ⟨head1, out1, xs1, hstep, h1, hout1⟩ := step.spec h hall.1
    have hrest := hall.2
    rw [hstep] at hrest
    obtain ⟨head2, out2, xs2, hrun, h2, hout2⟩ := ih h1 hrest
    refine ⟨head2, out1 ++ out2, xs2, ?_, h2, ?_⟩
    · simp only [run, hstep, hrun, Option.bind_eq_bind, Option.bind_some]
    · have hadded : added (c :: cs) = added [c] ++ added cs := by
        simp [added, ← List.filterMap_append]
      rw [hadded, ← List.append_assoc, hout1, List.append_assoc, hout2, List.append_assoc]

/-- Whatever addresses the allocator gives out, as long as they are not in use: no freed node is
followed, the objects come out in the order in which they were added, each once, and those that
have not come out are inside and counted. -/
theorem the_fifo_is_a_queue (cs : List (Call β α)) (h : AllAllowed fifo_new cs) :
    ∃ head out inside, run fifo_new cs = some (head, out) ∧ out ++ inside = added cs ∧
      Rep head inside ∧ fifo_count head = inside.length := by
  obtain ⟨head, out, inside, hrun, hrep, hout⟩ := run.spec fifo_new.spec h
  obtain ⟨ps, hlinked⟩ := hrep
  exact ⟨head, out, inside, hrun, hout.symm, ⟨ps, hlinked⟩, hlinked.count⟩

/-- Two addresses, the first of them given out twice: the node of 2 still points with `next` to
where 1 was and 3 is. -/
theorem the_fifo_is_a_queue_for_two_addresses :
    ∃ (head : fifo_head_t Bool Nat) (out inside : List Nat),
      run fifo_new [.fifo_add false 1, .fifo_add true 2, .fifo_get, .fifo_add false 3, .fifo_get] =
        some (head, out) ∧ out ++ inside = [1, 2, 3] ∧ Rep head inside ∧
      fifo_count head = inside.length :=
  the_fifo_is_a_queue _ ⟨rfl, rfl, (by decide : (2 : Int) > 0), rfl, (by decide : (2 : Int) > 0), trivial⟩

end dect_prog.fifo_heap
