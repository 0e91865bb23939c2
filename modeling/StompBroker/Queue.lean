import StompBroker.LinkedCells

/-! The queues and lists of the broker at the level of their cells: `queue.c`,
`general_list.c` and the bulk insertion of `thread_safe_queue.c`. Both structures have the same
three fields, so both are `Linked`. -/
namespace StompBroker.Queue
open LinkedCells
variable {α : Type}

def queueInit : Linked α := empty

def listNew : Linked α := empty

/-- `create_general_list_item` and the insertion at the tail; a queue is empty by its size. -/
def enqueue (q : Linked α) (newData : α) : Option (Linked α) :=
  let (heap, newListItem) := q.heap.alloc newData
  if q.size = 0 then some ⟨heap, some newListItem, some newListItem, q.size + 1⟩
  else do
    let last ← q.last
    let heap ← heap.setNext last (some newListItem)
    return ⟨heap, q.first, some newListItem, q.size + 1⟩

def putHead (q : Linked α) (newData : α) : Option (Linked α) :=
  let (heap, newListItem) := q.heap.alloc newData
  do
    let heap ← heap.setNext newListItem q.first
    let first := some newListItem
    return ⟨heap, first, if q.size = 0 then first else q.last, q.size + 1⟩

/-- The conversion of an `int` that is compared with an `unsigned int`. -/
def toUnsigned (n : ℤ) : ℤ := if n < 0 then n + 2 ^ 32 else n

def enqueueLimited (q : Linked α) (newData : α) (limit : BitVec 32) : Option (Linked α × ℤ) :=
  if toUnsigned q.size < limit.toNat then (enqueue q newData).map fun q => (q, 0)
  else some (q, -1)

/-- Takes the head out, frees its cell and returns its data; a null pointer if there is none. -/
def dequeue (q : Linked α) : Option (Linked α × Option α) :=
  match q.first with
  | none => some (q, none)
  | some head => do
      let cell ← q.heap.load head
      let last := if q.last = some head then none else q.last
      let heap ← q.heap.free head
      return (⟨heap, cell.next, last, q.size - 1⟩, some cell.data)

/-- The insertion at the tail of a list, which is empty by its last pointer. -/
def listAdd (gList : Linked α) (data : α) : Option (Linked α) :=
  let (heap, newElem) := gList.heap.alloc data
  match gList.last with
  | some last => do
      let heap ← heap.setNext last (some newElem)
      return ⟨heap, gList.first, some newElem, gList.size + 1⟩
  | none => some ⟨heap, some newElem, some newElem, 1⟩

/-- Takes the child out of the queue; its cell is left to the caller. -/
def unchainChild (q : Linked α) (parent : Option ℕ) (child : ℕ) : Option (Linked α) := do
  let q := { q with size := q.size - 1 }
  let cell ← q.heap.load child
  q.bypass parent child cell.next

/-- The walk of `list_unchain_at`: the cell at an index and the one before it. -/
def walkTo (heap : Heap α) : ℕ → Option ℕ → Option ℕ → Option (Option ℕ × Option ℕ)
  | 0, p, currentItem => some (p, currentItem)
  | steps + 1, _, currentItem => do
      let a ← currentItem
      let cell ← heap.load a
      walkTo heap steps (some a) cell.next

/-- Takes the cell at an index out, frees it and returns its data; the data is read after the
links were led around the cell. -/
def listUnchainAt (list : Linked α) (ix : ℤ) : Option (Linked α × Option α) :=
  if ix < 0 ∨ list.size ≤ ix then some (list, none)
  else do
    let (p, currentItem) ← walkTo list.heap ix.toNat none list.first
    let item ← currentItem
    let cell ← list.heap.load item
    let list ← list.bypass p item cell.next
    let cell ← list.heap.load item
    let heap ← list.heap.free item
    return ({ list with heap := heap, size := list.size - 1 }, some cell.data)

/-- The loop of `ts_enqueue_multiple` over the new items. -/
def enqueueItems (newItems : Heap α) : ℕ → Linked α → Option ℕ → Option (Linked α)
  | _, q, none => some q
  | 0, _, some _ => none
  | fuel + 1, q, some first => do
      let item ← newItems.load first
      let q ← enqueue q item.data
      enqueueItems newItems fuel q item.next

/-- A walk visits each cell of the heap at most once, so the heap bounds the loop. -/
def tsEnqueueMultiple (q newItems : Linked α) : Option (Linked α) :=
  enqueueItems newItems.heap newItems.heap.length q newItems.first

variable {q l : Linked α} {nodes kept rest : List (ℕ × α)} {parent cursor : Option ℕ} {a : ℕ} {x : α}

theorem enqueue_holds (h : Holds q nodes) (data : α) :
    ∃ q', enqueue q data = some q' ∧ Holds q' (nodes ++ [(q.heap.length, data)]) := by
  by_cases hs : q.size = 0
  · obtain rfl := h.size_eq_zero.1 hs
    exact ⟨_, by simp [enqueue, hs, Heap.alloc], holds_singleton q.heap data⟩
  · obtain ⟨b, hb⟩ : ∃ b, q.last = some b :=
      Option.ne_none_iff_exists'.1 fun hn => hs (h.size_eq_zero.2 (h.last_eq_none.1 hn))
    obtain ⟨heap, hset, hholds⟩ := h.snoc hb data
    exact ⟨_, by simp [enqueue, hs, hb, show (q.heap.alloc data).2 = q.heap.length from rfl, hset], hholds⟩

theorem listAdd_holds (h : Holds l nodes) (data : α) :
    ∃ l', listAdd l data = some l' ∧ Holds l' (nodes ++ [(l.heap.length, data)]) := by
  cases hb : l.last with
  | none =>
    obtain rfl := h.last_eq_none.1 hb
    exact ⟨_, by simp [listAdd, hb, Heap.alloc], holds_singleton l.heap data⟩
  | some b =>
    obtain ⟨heap, hset, hholds⟩ := h.snoc hb data
    exact ⟨_, by simp [listAdd, hb, show (l.heap.alloc data).2 = l.heap.length from rfl, hset], hholds⟩

theorem putHead_holds (h : Holds q nodes) (data : α) :
    ∃ q', putHead q data = some q' ∧ Holds q' ((q.heap.length, data) :: nodes) := by
  obtain ⟨heap, hset, hholds⟩ := h.cons data
  exact ⟨_, by simp [putHead, show (q.heap.alloc data).2 = q.heap.length from rfl, hset], hholds⟩

theorem enqueueLimited_holds (h : Holds q nodes) (data : α) (limit : BitVec 32) :
    if nodes.length < limit.toNat then
      ∃ q', enqueueLimited q data limit = some (q', 0) ∧ Holds q' (nodes ++ [(q.heap.length, data)])
    else enqueueLimited q data limit = some (q, -1) := by
  have hsize : toUnsigned q.size = nodes.length := by
    rw [h.size, toUnsigned, if_neg (by omega)]
  split_ifs with hlt
  · obtain ⟨q', hq', hholds⟩ := enqueue_holds h data
    exact ⟨q', by rw [enqueueLimited, hsize, if_pos (by exact_mod_cast hlt), hq', Option.map_some], hholds⟩
  · rw [enqueueLimited, hsize, if_neg (by exact_mod_cast hlt)]

theorem dequeue_nil (h : Holds q []) : dequeue q = some (q, none) := by
  simp [dequeue, h.first_eq_none.2 rfl]

theorem dequeue_cons (h : Holds q ((a, x) :: rest)) : ∃ q', dequeue q = some (q', some x) ∧ Holds q' rest := by
  have h' : Holds q ([] ++ (a, x) :: rest) := h
  obtain ⟨l', hl', -, -, hholds⟩ := h'.bypass
  have hload : q.heap.load a = some ⟨x, firstAddress rest⟩ := h'.load
  simp only [lastAddress_nil, Linked.bypass, Linked.setLink, Option.map_some, Option.some.injEq] at hl'
  have hfree := hholds.free h'.apart.1
  refine ⟨_, by simp [dequeue, show q.first = some a from h.first_eq, hload, Heap.free]; rfl, ?_⟩
  subst hl'
  split_ifs at hfree ⊢ <;> exact hfree

theorem walkTo_walk (h : Walk l kept rest parent cursor) (k : ℕ) (hk : k ≤ rest.length) :
    ∃ p c, walkTo l.heap k parent cursor = some (p, c) ∧ Walk l (kept ++ rest.take k) (rest.drop k) p c := by
  induction k generalizing kept rest parent cursor with
  | zero => exact ⟨parent, cursor, rfl, by simpa using h⟩
  | succ k ih =>
    cases rest with
    | nil => simp at hk
    | cons n rest =>
      obtain ⟨a, x⟩ := n
      obtain ⟨p, c, hpc, hwalk⟩ := ih h.skip (by simpa using hk)
      refine ⟨p, c, ?_, by simpa using hwalk⟩
      simp [walkTo, h.load.1, h.load.2, hpc]

theorem listUnchainAt_out (h : Holds l nodes) {ix : ℤ} (hix : ix < 0 ∨ nodes.length ≤ ix) :
    listUnchainAt l ix = some (l, none) := by
  rw [listUnchainAt, h.size, if_pos hix]

theorem listUnchainAt_at (h : Holds l (kept ++ (a, x) :: rest)) :
    ∃ l', listUnchainAt l kept.length = some (l', some x) ∧ Holds l' (kept ++ rest) := by
  obtain ⟨p, c, hpc, hwalk⟩ := walkTo_walk (Walk.start h) kept.length (by simp)
  rw [List.nil_append, List.take_left, List.drop_left] at hwalk
  obtain ⟨l', hl', hsize, hload, hwalk'⟩ := hwalk.bypass
  have hin : ¬ ((kept.length : ℤ) < 0 ∨ l.size ≤ kept.length) := by
    rw [h.size]
    simp
  refine ⟨{ l' with heap := l'.heap.set a none, size := l.size - 1 }, ?_, hwalk'.holds⟩
  simp [listUnchainAt, hin, hpc, hwalk.load.1, hwalk.load.2, hl', hload, Heap.free, hsize]

/-- The child leaves the queue, its cell stays allocated. -/
theorem unchainChild_holds (h : Holds q (kept ++ (a, x) :: rest)) :
    ∃ q', unchainChild q (lastAddress kept) a = some q' ∧ Holds q' (kept ++ rest) := by
  obtain ⟨l', hl', -, -, hholds⟩ := h.bypass
  exact ⟨{ l' with size := q.size - 1 }, by simp [unchainChild, h.load, Linked.bypass_size, hl'], hholds⟩

theorem unchainChild_release (h : Walk q kept ((a, x) :: rest) parent cursor) :
    ∃ q₁ q₂, unchainChild q parent a = some q₁ ∧ q₁.release a = some (q₂, firstAddress rest) ∧
      Walk q₂ kept rest parent (firstAddress rest) := by
  obtain ⟨l', hl', -, hload, hwalk⟩ := h.bypass
  refine ⟨{ l' with size := q.size - 1 }, _, ?_, Linked.release_eq hload, hwalk⟩
  simp [unchainChild, h.load.2, Linked.bypass_size, hl']

theorem enqueueItems_holds {items : Heap α} {p : Option ℕ} {new : List (ℕ × α)} (hc : Chain items p new none)
    {fuel : ℕ} (hf : new.length ≤ fuel) (h : Holds q nodes) :
    ∃ q' added, enqueueItems items fuel q p = some q' ∧ Holds q' (nodes ++ added) ∧ values added = values new := by
  induction new generalizing p fuel q nodes with
  | nil =>
    cases hc
    exact ⟨q, [], by rw [enqueueItems], by rwa [List.append_nil], rfl⟩
  | cons n new ih =>
    obtain ⟨fuel, rfl⟩ : ∃ k, fuel = k + 1 := ⟨fuel - 1, by simp at hf; omega⟩
    cases hc with
    | @cons a data next _ _ load hrest =>
    obtain ⟨q₁, hq₁, hh₁⟩ := enqueue_holds h data
    obtain ⟨q', added, hq', hh', hv⟩ := ih hrest (by simpa using hf) hh₁
    refine ⟨q', (q.heap.length, data) :: added, ?_, ?_, ?_⟩
    · simp [enqueueItems, load, hq₁, hq']
    · rwa [List.append_assoc, List.singleton_append] at hh'
    · simp only [values, List.map_cons] at hv ⊢
      rw [hv]

theorem tsEnqueueMultiple_holds (h : Holds q nodes) {new : List (ℕ × α)} (hl : Holds l new) :
    ∃ q' added, tsEnqueueMultiple q l = some q' ∧ Holds q' (nodes ++ added) ∧ values added = values new :=
  enqueueItems_holds hl.chain hl.length_le h

end StompBroker.Queue
