import Mathlib.Tactic
import Mathlib.Data.List.Nodup

/-! Singly linked lists of heap cells, kept with a pointer to the first cell, a pointer to the
last one and a count. A null pointer is `none`, and so is the result of an operation that uses
a null pointer or a cell that is not allocated. -/
namespace StompBroker.LinkedCells
variable {α : Type}

structure Cell (α : Type) where
  data : α
  next : Option ℕ
  deriving DecidableEq, Repr

/-- Cells by address; a freed cell is `none`. -/
abbrev Heap (α : Type) := List (Option (Cell α))

def Heap.load (h : Heap α) (a : ℕ) : Option (Cell α) := h[a]?.join

def Heap.setNext (h : Heap α) (a : ℕ) (next : Option ℕ) : Option (Heap α) :=
  (h.load a).map fun c => h.set a (some { c with next := next })

def Heap.free (h : Heap α) (a : ℕ) : Option (Heap α) := (h.load a).map fun _ => h.set a none

def Heap.alloc (h : Heap α) (data : α) : Heap α × ℕ := (h ++ [some ⟨data, none⟩], h.length)

theorem Heap.lt_of_load {h : Heap α} {a : ℕ} {c : Cell α} (hc : h.load a = some c) : a < h.length := by
  by_contra hlt
  rw [Heap.load, List.getElem?_eq_none (by omega)] at hc
  cases hc

theorem Heap.load_set_ne {h : Heap α} {a b : ℕ} (hne : b ≠ a) (c : Option (Cell α)) :
    Heap.load (h.set a c) b = h.load b := by
  rw [Heap.load, Heap.load, List.getElem?_set_ne hne.symm]

theorem Heap.load_set_self {h : Heap α} {a : ℕ} (hlt : a < h.length) (c : Option (Cell α)) :
    Heap.load (h.set a c) a = c := by
  rw [Heap.load, List.getElem?_set_self hlt, Option.join_some]

theorem Heap.load_append {h : Heap α} {a : ℕ} (hlt : a < h.length) (more : Heap α) :
    Heap.load (h ++ more) a = h.load a := by
  rw [Heap.load, Heap.load, List.getElem?_append_left hlt]

/-- Following the links from one pointer to another visits these cells. -/
inductive Chain (h : Heap α) : Option ℕ → List (ℕ × α) → Option ℕ → Prop
  | nil (p : Option ℕ) : Chain h p [] p
  | cons {a : ℕ} {x : α} {next q : Option ℕ} {nodes : List (ℕ × α)} (load : h.load a = some ⟨x, next⟩)
      (rest : Chain h next nodes q) : Chain h (some a) ((a, x) :: nodes) q

def addresses (nodes : List (ℕ × α)) : List ℕ := nodes.map Prod.fst

def values (nodes : List (ℕ × α)) : List α := nodes.map Prod.snd

def firstAddress (nodes : List (ℕ × α)) : Option ℕ := nodes.head?.map Prod.fst

def lastAddress (nodes : List (ℕ × α)) : Option ℕ := nodes.getLast?.map Prod.fst

@[simp] theorem lastAddress_nil : lastAddress ([] : List (ℕ × α)) = none := rfl

@[simp] theorem lastAddress_concat (nodes : List (ℕ × α)) (n : ℕ × α) :
    lastAddress (nodes ++ [n]) = some n.1 := by
  simp [lastAddress]

theorem lastAddress_append_cons (front : List (ℕ × α)) (n : ℕ × α) (back : List (ℕ × α)) :
    lastAddress (front ++ n :: back) = lastAddress (n :: back) := by
  rw [lastAddress, lastAddress, List.getLast?_append_of_ne_nil _ (List.cons_ne_nil n back)]

theorem lastAddress_mem {nodes : List (ℕ × α)} {a : ℕ} (h : lastAddress nodes = some a) : a ∈ addresses nodes := by
  obtain ⟨n, hn, rfl⟩ := Option.map_eq_some_iff.1 h
  exact List.mem_map_of_mem (List.mem_of_getLast? hn)

section Chains
variable {h h' : Heap α} {p q r : Option ℕ} {nodes front back : List (ℕ × α)}

theorem Chain.append (hf : Chain h p front q) (hb : Chain h q back r) : Chain h p (front ++ back) r := by
  induction hf with
  | nil => exact hb
  | cons load _ ih => exact .cons load (ih hb)

theorem Chain.split (hc : Chain h p (front ++ back) r) : ∃ q, Chain h p front q ∧ Chain h q back r := by
  induction front generalizing p with
  | nil => exact ⟨p, .nil p, hc⟩
  | cons n front ih =>
    cases hc with
    | cons load rest =>
      obtain ⟨q, hf, hb⟩ := ih rest
      exact ⟨q, .cons load hf, hb⟩

/-- A chain depends on the cells it visits only. -/
theorem Chain.congr (hc : Chain h p nodes q) (hload : ∀ a ∈ addresses nodes, h'.load a = h.load a) :
    Chain h' p nodes q := by
  induction hc with
  | nil => exact .nil _
  | cons load _ ih =>
    refine .cons ((hload _ (by simp [addresses])).trans load) (ih fun a ha => hload a ?_)
    exact List.mem_cons_of_mem _ ha

theorem Chain.start_eq (hc : Chain h p nodes none) : p = firstAddress nodes := by
  cases hc <;> rfl

theorem Chain.lt_length (hc : Chain h p nodes q) : ∀ a ∈ addresses nodes, a < h.length := by
  induction hc with
  | nil => simp [addresses]
  | cons load _ ih =>
    intro a ha
    rcases List.mem_cons.1 ha with rfl | ha
    · exact Heap.lt_of_load load
    · exact ih a ha

end Chains

structure Linked (α : Type) where
  heap : Heap α
  first : Option ℕ
  last : Option ℕ
  size : ℤ
  deriving DecidableEq, Repr

def empty : Linked α := ⟨[], none, none, 0⟩

/-- The list consists of these cells, and its pointers and its count say so. -/
structure Holds (l : Linked α) (nodes : List (ℕ × α)) : Prop where
  chain : Chain l.heap l.first nodes none
  distinct : (addresses nodes).Nodup
  last : l.last = lastAddress nodes
  size : l.size = nodes.length

theorem holds_empty : Holds (empty : Linked α) [] := ⟨.nil none, List.nodup_nil, rfl, rfl⟩

/-- Let the parent, or the list itself, point to another cell. -/
def Linked.setLink (l : Linked α) (parent next : Option ℕ) : Option (Linked α) :=
  match parent with
  | none => some { l with first := next }
  | some p => (l.heap.setNext p next).map fun heap => { l with heap := heap }

def Linked.link (l : Linked α) (parent : Option ℕ) : Option (Option ℕ) :=
  match parent with
  | none => some l.first
  | some p => (l.heap.load p).map Cell.next

def Linked.bypass (l : Linked α) (parent : Option ℕ) (child : ℕ) (next : Option ℕ) : Option (Linked α) :=
  (l.setLink parent next).map fun l => if l.last = some child then { l with last := parent } else l

/-- Read the link of a cell that was taken out, then free it. -/
def Linked.release (l : Linked α) (a : ℕ) : Option (Linked α × Option ℕ) := do
  let cell ← l.heap.load a
  let heap ← l.heap.free a
  return ({ l with heap := heap }, cell.next)

theorem Linked.bypass_size (l : Linked α) (n : ℤ) (parent : Option ℕ) (child : ℕ) (next : Option ℕ) :
    Linked.bypass { l with size := n } parent child next =
      (l.bypass parent child next).map fun l => { l with size := n } := by
  have hset : Linked.setLink { l with size := n } parent next =
      (l.setLink parent next).map fun l => { l with size := n } := by
    cases parent with
    | none => rfl
    | some p => simp [Linked.setLink, Function.comp_def]
  rw [Linked.bypass, hset, Linked.bypass, Option.map_map, Option.map_map]
  congr 1
  funext l
  simp only [Function.comp_apply]
  split_ifs <;> rfl

theorem Linked.release_eq {l : Linked α} {a : ℕ} {x : α} {next : Option ℕ} (h : l.heap.load a = some ⟨x, next⟩) :
    l.release a = some ({ l with heap := l.heap.set a none }, next) := by
  simp [Linked.release, Heap.free, h]

/-- The cells that the links lead to; the fuel bounds a cycle. -/
def Heap.visit (h : Heap α) : ℕ → Option ℕ → List (ℕ × α)
  | _, none => []
  | 0, some _ => []
  | fuel + 1, some a =>
      match h.load a with
      | none => []
      | some cell => (a, cell.data) :: h.visit fuel cell.next

def Linked.cells (l : Linked α) : List (ℕ × α) := l.heap.visit l.heap.length l.first

theorem Chain.visit_eq {h : Heap α} {p : Option ℕ} {nodes : List (ℕ × α)} (hc : Chain h p nodes none) {fuel : ℕ}
    (hf : nodes.length ≤ fuel) : h.visit fuel p = nodes := by
  induction nodes generalizing p fuel with
  | nil =>
    cases hc
    rw [Heap.visit]
  | cons n nodes ih =>
    obtain ⟨fuel, rfl⟩ : ∃ k, fuel = k + 1 := ⟨fuel - 1, by simp at hf; omega⟩
    cases hc with
    | cons load rest => simp [Heap.visit, load, ih rest (by simpa using hf)]

section Operations
variable {l : Linked α} {nodes kept rest : List (ℕ × α)} {a : ℕ} {x : α}

theorem Holds.first_eq (h : Holds l nodes) : l.first = firstAddress nodes := h.chain.start_eq

theorem Holds.first_eq_none (h : Holds l nodes) : l.first = none ↔ nodes = [] := by
  rw [h.first_eq]
  cases nodes <;> simp [firstAddress]

theorem Holds.last_eq_none (h : Holds l nodes) : l.last = none ↔ nodes = [] := by
  rw [h.last, lastAddress, Option.map_eq_none_iff, List.getLast?_eq_none_iff]

theorem Holds.size_eq_zero (h : Holds l nodes) : l.size = 0 ↔ nodes = [] := by
  rw [h.size]
  cases nodes <;> simp
  omega

theorem Holds.length_le (h : Holds l nodes) : nodes.length ≤ l.heap.length := by
  have hsub : addresses nodes ⊆ List.range l.heap.length := fun a ha => List.mem_range.2 (h.chain.lt_length a ha)
  have hle := (List.subperm_of_subset h.distinct hsub).length_le
  rwa [addresses, List.length_map, List.length_range] at hle

theorem Holds.cells_eq (h : Holds l nodes) : l.cells = nodes := h.chain.visit_eq h.length_le

theorem Holds.load (h : Holds l (kept ++ (a, x) :: rest)) : l.heap.load a = some ⟨x, firstAddress rest⟩ := by
  obtain ⟨q, -, hq⟩ := h.chain.split
  cases hq with
  | cons load hrest => rw [load, hrest.start_eq]

theorem Holds.apart (h : Holds l (kept ++ (a, x) :: rest)) :
    a ∉ addresses (kept ++ rest) ∧ (addresses (kept ++ rest)).Nodup := by
  have hd := h.distinct
  have hperm : (addresses (kept ++ (a, x) :: rest)).Perm (a :: addresses (kept ++ rest)) :=
    List.Perm.map Prod.fst List.perm_middle
  exact List.nodup_cons.1 (hperm.nodup_iff.1 hd)

theorem Holds.free (h : Holds l nodes) (ha : a ∉ addresses nodes) :
    Holds { l with heap := l.heap.set a none } nodes :=
  ⟨h.chain.congr fun _ hb => Heap.load_set_ne (ne_of_mem_of_not_mem hb ha) none, h.distinct, h.last, h.size⟩

theorem Holds.last_bypass (h : Holds l (kept ++ (a, x) :: rest)) :
    (if l.last = some a then lastAddress kept else l.last) = lastAddress (kept ++ rest) := by
  rw [h.last, lastAddress_append_cons]
  cases rest with
  | nil => simp [lastAddress]
  | cons n rest =>
    have hn : lastAddress ((a, x) :: n :: rest) = lastAddress (n :: rest) := lastAddress_append_cons [(a, x)] n rest
    have hne : lastAddress (n :: rest) ≠ some a := fun he =>
      h.apart.1 (by simp only [addresses, List.map_append]; exact List.mem_append_right _ (lastAddress_mem he))
    rw [hn, if_neg hne, lastAddress_append_cons]

theorem Holds.setLink (h : Holds l (kept ++ (a, x) :: rest)) :
    ∃ heap first, l.setLink (lastAddress kept) (firstAddress rest) = some { l with heap := heap, first := first } ∧
      Chain heap first (kept ++ rest) none ∧ heap.load a = l.heap.load a ∧ heap.length = l.heap.length := by
  obtain ⟨ha, hd⟩ := h.apart
  obtain ⟨q, hkept, hq⟩ := h.chain.split
  cases hq with
  | @cons _ _ next _ _ load hrest =>
  have hnext : next = firstAddress rest := hrest.start_eq
  rcases List.eq_nil_or_concat kept with rfl | ⟨front, ⟨b, y⟩, rfl⟩
  · exact ⟨l.heap, next, by simp [Linked.setLink, hnext], hrest, rfl, rfl⟩
  · rw [List.concat_eq_append] at *
    obtain ⟨r, hfront, hb⟩ := hkept.split
    cases hb with
    | cons hload hnil =>
    have hlt : b < l.heap.length := Heap.lt_of_load hload
    have hnodup : b ∉ addresses front ∧ b ∉ addresses rest ∧ b ≠ a := by
      simp only [addresses, List.map_append, List.map_cons, List.append_assoc, List.nodup_append,
        List.mem_append, List.singleton_append, List.nodup_cons] at ha hd ⊢
      refine ⟨fun hm => hd.2.2 b hm b List.mem_cons_self rfl, hd.2.1.1, fun he => ha (.inr (he ▸ List.mem_cons_self))⟩
    obtain ⟨hbf, hbr, hba⟩ := hnodup
    have hcongr : ∀ nodes : List (ℕ × α), b ∉ addresses nodes →
        ∀ c ∈ addresses nodes, Heap.load (l.heap.set b (some ⟨y, next⟩)) c = l.heap.load c :=
      fun nodes hn c hc => Heap.load_set_ne (ne_of_mem_of_not_mem hc hn) _
    refine ⟨l.heap.set b (some ⟨y, next⟩), l.first, ?_, ?_, Heap.load_set_ne hba.symm _, List.length_set⟩
    · simp [Linked.setLink, Heap.setNext, hload, hnext]
    · rw [List.append_assoc]
      refine (hfront.congr (hcongr front hbf)).append (.cons (Heap.load_set_self hlt _) ?_)
      exact hrest.congr (hcongr rest hbr)

/-- Leading the links around a child and counting it out leaves the other cells. -/
theorem Holds.bypass (h : Holds l (kept ++ (a, x) :: rest)) :
    ∃ l', l.bypass (lastAddress kept) a (firstAddress rest) = some l' ∧ l'.size = l.size ∧
      l'.heap.load a = l.heap.load a ∧ Holds { l' with size := l.size - 1 } (kept ++ rest) := by
  obtain ⟨heap, first, hset, hchain, hload, -⟩ := h.setLink
  have hsize : l.size - 1 = (kept ++ rest).length := by
    rw [h.size]
    simp
    omega
  refine ⟨_, by rw [Linked.bypass, hset, Option.map_some], ?_, ?_, ?_⟩
  · split_ifs <;> rfl
  · split_ifs <;> exact hload
  · refine ⟨?_, h.apart.2, ?_, hsize⟩
    · split_ifs <;> exact hchain
    · rw [← h.last_bypass]
      split_ifs <;> simp_all

theorem holds_singleton (heap : Heap α) (data : α) :
    Holds ⟨(heap.alloc data).1, some heap.length, some heap.length, 1⟩ [(heap.length, data)] := by
  refine ⟨.cons ?_ (.nil none), List.nodup_singleton _, rfl, rfl⟩
  simp [Heap.alloc, Heap.load]

theorem Holds.snoc (h : Holds l nodes) {b : ℕ} (hb : l.last = some b) (data : α) :
    ∃ heap, (l.heap.alloc data).1.setNext b (some l.heap.length) = some heap ∧
      Holds ⟨heap, l.first, some l.heap.length, l.size + 1⟩ (nodes ++ [(l.heap.length, data)]) := by
  have hnew : l.heap.length ∉ addresses nodes := fun hm => absurd (h.chain.lt_length _ hm) (lt_irrefl _)
  rcases List.eq_nil_or_concat nodes with rfl | ⟨front, ⟨c, y⟩, rfl⟩
  · rw [h.last_eq_none.2 rfl] at hb
    cases hb
  rw [List.concat_eq_append] at *
  obtain rfl : c = b := by
    rw [h.last, lastAddress_concat, Option.some_inj] at hb
    exact hb
  have hload : l.heap.load c = some ⟨y, none⟩ := h.load
  have hlt : c < l.heap.length := Heap.lt_of_load hload
  have hload' : Heap.load (l.heap.alloc data).1 c = some ⟨y, none⟩ := (Heap.load_append hlt _).trans hload
  obtain ⟨hcf, -⟩ := h.apart
  obtain ⟨r, hfront, hc⟩ := h.chain.split
  obtain rfl : r = some c := by cases hc; rfl
  rw [List.append_nil] at hcf
  refine ⟨(l.heap.alloc data).1.set c (some ⟨y, some l.heap.length⟩), by simp [Heap.setNext, hload'], ?_, ?_, ?_, ?_⟩
  · rw [List.append_assoc]
    refine (hfront.congr fun a ha => ?_).append (.cons (Heap.load_set_self ?_ _) (.cons ?_ (.nil none)))
    · rw [Heap.load_set_ne (ne_of_mem_of_not_mem ha hcf)]
      exact Heap.load_append (hfront.lt_length a ha) _
    · simp only [Heap.alloc, List.length_append]
      omega
    · rw [Heap.load_set_ne (Nat.ne_of_gt hlt)]
      simp [Heap.alloc, Heap.load]
  · simp only [addresses, List.map_append, List.map_singleton] at hnew ⊢
    exact List.nodup_append.2 ⟨by simpa [addresses] using h.distinct, List.nodup_singleton _,
      fun a ha b hb he => hnew (List.mem_singleton.1 hb ▸ he ▸ ha)⟩
  · rw [lastAddress_concat]
  · rw [h.size]
    simp only [List.length_append, List.length_singleton]
    push_cast
    rfl

theorem Holds.cons (h : Holds l nodes) (data : α) :
    ∃ heap, (l.heap.alloc data).1.setNext l.heap.length l.first = some heap ∧
      Holds ⟨heap, some l.heap.length, if l.size = 0 then some l.heap.length else l.last, l.size + 1⟩
        ((l.heap.length, data) :: nodes) := by
  have hnew : l.heap.length ∉ addresses nodes := fun hm => absurd (h.chain.lt_length _ hm) (lt_irrefl _)
  have hlt : l.heap.length < (l.heap.alloc data).1.length := by simp [Heap.alloc]
  have hload : Heap.load (l.heap.alloc data).1 l.heap.length = some ⟨data, none⟩ := by simp [Heap.alloc, Heap.load]
  refine ⟨_, by rw [Heap.setNext, hload, Option.map_some], .cons (Heap.load_set_self hlt _) ?_, ?_, ?_, ?_⟩
  · refine h.chain.congr fun a ha => ?_
    rw [Heap.load_set_ne (ne_of_mem_of_not_mem ha hnew)]
    exact Heap.load_append (h.chain.lt_length a ha) _
  · exact List.nodup_cons.2 ⟨hnew, h.distinct⟩
  · cases nodes with
    | nil => rw [if_pos (h.size_eq_zero.2 rfl)]; rfl
    | cons n nodes =>
      have hne : l.size ≠ 0 := fun he => List.cons_ne_nil n nodes (h.size_eq_zero.1 he)
      rw [if_neg hne, h.last]
      exact (lastAddress_append_cons [(l.heap.length, data)] n nodes).symm
  · rw [h.size]
    simp

end Operations

/-- A walk with a trailing parent pointer: the cells it has kept and the cells before it. -/
structure Walk (l : Linked α) (kept rest : List (ℕ × α)) (parent cursor : Option ℕ) : Prop where
  holds : Holds l (kept ++ rest)
  parent_eq : parent = lastAddress kept
  cursor_eq : cursor = firstAddress rest

section Walks
variable {l : Linked α} {nodes kept rest : List (ℕ × α)} {parent cursor : Option ℕ} {a : ℕ} {x : α}

theorem Walk.start (h : Holds l nodes) : Walk l [] nodes none l.first := ⟨h, rfl, h.first_eq⟩

theorem Walk.load (h : Walk l kept ((a, x) :: rest) parent cursor) :
    cursor = some a ∧ l.heap.load a = some ⟨x, firstAddress rest⟩ := ⟨h.cursor_eq, h.holds.load⟩

theorem Walk.skip (h : Walk l kept ((a, x) :: rest) parent cursor) :
    Walk l (kept ++ [(a, x)]) rest (some a) (firstAddress rest) := by
  refine ⟨?_, (lastAddress_concat kept (a, x)).symm, rfl⟩
  rw [List.append_assoc]
  exact h.holds

/-- The walk takes the cell out of the list. The cell itself stays readable until it is freed. -/
theorem Walk.bypass (h : Walk l kept ((a, x) :: rest) parent cursor) :
    ∃ l', l.bypass parent a (firstAddress rest) = some l' ∧ l'.size = l.size ∧
      l'.heap.load a = some ⟨x, firstAddress rest⟩ ∧
      Walk { l' with heap := l'.heap.set a none, size := l.size - 1 } kept rest parent (firstAddress rest) := by
  obtain ⟨l', hl', hsize, hload, hholds⟩ := h.holds.bypass
  rw [← h.parent_eq] at hl'
  exact ⟨l', hl', hsize, hload.trans h.load.2, hholds.free h.holds.apart.1, h.parent_eq, rfl⟩

theorem Walk.link (h : Walk l kept rest parent cursor) : l.link parent = some (firstAddress rest) := by
  have hholds := h.holds
  rw [h.parent_eq]
  rcases List.eq_nil_or_concat kept with rfl | ⟨front, ⟨b, y⟩, rfl⟩
  · rw [lastAddress_nil, Linked.link, hholds.first_eq, List.nil_append]
  · rw [List.concat_eq_append, List.append_assoc, List.singleton_append] at hholds
    rw [List.concat_eq_append, lastAddress_concat]
    simp [Linked.link, hholds.load]

end Walks

end StompBroker.LinkedCells
