import StompBroker.Queue

/-! Runs of calls on a queue or a list against the same operations on mathematical lists. -/
namespace StompBroker.QueueRuns
open LinkedCells Queue
variable {α : Type}

/-- What a call returns: nothing, a status or a data pointer. -/
inductive Reply (α : Type)
  | void
  | status (code : ℤ)
  | data (pointer : Option α)
  deriving DecidableEq, Repr

inductive SeqOp (α : Type)
  | append (x : α)
  | prepend (x : α)
  | appendIfShorter (x : α) (limit : ℕ)
  | removeHead
  | removeThat (position : ℕ)
  | removeAt (ix : ℤ)
  deriving DecidableEq, Repr

def SeqOp.apply : SeqOp α → List α → List α × Reply α
  | append x, s => (s ++ [x], .void)
  | prepend x, s => (x :: s, .void)
  | appendIfShorter x limit, s => if s.length < limit then (s ++ [x], .status 0) else (s, .status (-1))
  | removeHead, s => (s.tail, .data s.head?)
  | removeThat position, s => (s.eraseIdx position, .void)
  | removeAt ix, s => if 0 ≤ ix ∧ ix < s.length then (s.eraseIdx ix.toNat, .data s[ix.toNat]?) else (s, .data none)

def applyAll : List α → List (SeqOp α) → List α × List (Reply α)
  | s, [] => (s, [])
  | s, op :: ops =>
      let (s, reply) := op.apply s
      let (s, replies) := applyAll s ops
      (s, reply :: replies)

/-- The pointers and the count of a structure describe its chain, and the chain stores the sequence. -/
structure Represents (l : Linked α) (s : List α) : Prop where
  chain : Chain l.heap l.first l.cells none
  distinct : (addresses l.cells).Nodup
  size : l.size = l.cells.length
  last : l.last = lastAddress l.cells
  first_null : l.first = none ↔ s = []
  last_null : l.last = none ↔ s = []
  stored : values l.cells = s

theorem Represents.holds {l : Linked α} {s : List α} (h : Represents l s) : Holds l l.cells :=
  ⟨h.chain, h.distinct, h.last, h.size⟩

theorem represents_of_holds {l : Linked α} {nodes : List (ℕ × α)} {s : List α} (h : Holds l nodes)
    (hs : values nodes = s) : Represents l s := by
  have hnil : nodes = [] ↔ s = [] := by rw [← hs, values, List.map_eq_nil_iff]
  have hcells := h.cells_eq
  refine ⟨?_, ?_, ?_, ?_, h.first_eq_none.trans hnil, h.last_eq_none.trans hnil, hcells ▸ hs⟩ <;> rw [hcells]
  · exact h.chain
  · exact h.distinct
  · exact h.size
  · exact h.last

section Runs
variable {C : Type} (call : Linked α → C → Option (Linked α × Reply α)) (Real : Linked α → C → Prop)
  (meaning : Linked α → C → SeqOp α)

def runCalls : Linked α → List C → Option (Linked α × List (Reply α))
  | l, [] => some (l, [])
  | l, c :: cs => do
      let (l, reply) ← call l c
      let (l, replies) ← runCalls l cs
      return (l, reply :: replies)

/-- Every call meets its condition in the state in which it is made. -/
def RealCalls : Linked α → List C → Prop
  | _, [] => True
  | l, c :: cs => Real l c ∧ ∀ l' reply, call l c = some (l', reply) → RealCalls l' cs

/-- What each call stands for in the state in which it is made. -/
def meanings : Linked α → List C → List (SeqOp α)
  | _, [] => []
  | l, c :: cs =>
      meaning l c ::
        match call l c with
        | none => []
        | some (l', _) => meanings l' cs

def CallCorrect (l : Linked α) (s : List α) (c : C) : Prop :=
  ∃ l' s' reply, call l c = some (l', reply) ∧ (meaning l c).apply s = (s', reply) ∧ Represents l' s'

variable {call Real meaning}

theorem run_represents (hcall : ∀ l s c, Represents l s → Real l c → CallCorrect call meaning l s c)
    {l : Linked α} {s : List α} (h : Represents l s) (calls : List C) (hreal : RealCalls call Real l calls) :
    ∃ l' s' replies, runCalls call l calls = some (l', replies) ∧
      applyAll s (meanings call meaning l calls) = (s', replies) ∧ Represents l' s' := by
  induction calls generalizing l s with
  | nil => exact ⟨l, s, [], rfl, rfl, h⟩
  | cons c calls ih =>
    obtain ⟨hc, hrest⟩ := hreal
    obtain ⟨l₁, s₁, reply, hl₁, hs₁, h₁⟩ := hcall l s c h hc
    obtain ⟨l', s', replies, hl', hs', h'⟩ := ih h₁ (hrest l₁ reply hl₁)
    exact ⟨l', s', reply :: replies, by simp [runCalls, hl₁, hl'], by simp [meanings, applyAll, hl₁, hs₁, hs'], h'⟩

theorem realCalls_cons {l l' : Linked α} {c : C} {calls : List C} {reply : Reply α} (hc : Real l c)
    (h : call l c = some (l', reply)) (hrest : RealCalls call Real l' calls) : RealCalls call Real l (c :: calls) := by
  refine ⟨hc, fun l₁ r₁ h₁ => ?_⟩
  rw [h, Option.some_inj, Prod.mk.injEq] at h₁
  exact h₁.1 ▸ hrest

end Runs

inductive QueueCall (α : Type)
  | enqueue (newData : α)
  | putHead (newData : α)
  | enqueueLimited (newData : α) (limit : BitVec 32)
  | dequeue
  | unchainChild (parent : Option ℕ) (child : ℕ)
  deriving DecidableEq, Repr

def queueCall (q : Linked α) : QueueCall α → Option (Linked α × Reply α)
  | .enqueue newData => (enqueue q newData).map fun q => (q, .void)
  | .putHead newData => (putHead q newData).map fun q => (q, .void)
  | .enqueueLimited newData limit => (enqueueLimited q newData limit).map fun (q, code) => (q, .status code)
  | .dequeue => (dequeue q).map fun (q, pointer) => (q, .data pointer)
  | .unchainChild parent child => (unchainChild q parent child).map fun q => (q, .void)

/-- The child is a cell of the queue and the parent the one before it. -/
def RealPair (q : Linked α) (parent : Option ℕ) (child : ℕ) : Prop :=
  ∃ kept x rest, q.cells = kept ++ (child, x) :: rest ∧ parent = lastAddress kept

def QueueCall.Real (q : Linked α) : QueueCall α → Prop
  | .unchainChild parent child => RealPair q parent child
  | _ => True

/-- The element of a child is the one at its place in the chain. -/
def QueueCall.meaning (q : Linked α) : QueueCall α → SeqOp α
  | .enqueue newData => .append newData
  | .putHead newData => .prepend newData
  | .enqueueLimited newData limit => .appendIfShorter newData limit.toNat
  | .dequeue => .removeHead
  | .unchainChild _ child => .removeThat ((addresses q.cells).idxOf child)

inductive ListCall (α : Type)
  | listAdd (data : α)
  | listUnchainAt (ix : ℤ)
  deriving DecidableEq, Repr

def listCall (l : Linked α) : ListCall α → Option (Linked α × Reply α)
  | .listAdd data => (listAdd l data).map fun l => (l, .void)
  | .listUnchainAt ix => (listUnchainAt l ix).map fun (l, pointer) => (l, .data pointer)

def ListCall.meaning (_ : Linked α) : ListCall α → SeqOp α
  | .listAdd data => .append data
  | .listUnchainAt ix => .removeAt ix

variable {q l : Linked α} {s : List α}

theorem values_eraseIdx_middle (kept : List (ℕ × α)) (n : ℕ × α) (rest : List (ℕ × α)) :
    (values (kept ++ n :: rest)).eraseIdx kept.length = values (kept ++ rest) := by
  simp [values, List.eraseIdx_append_of_length_le]

theorem idxOf_addresses {kept rest : List (ℕ × α)} {a : ℕ} {x : α} (h : Holds q (kept ++ (a, x) :: rest)) :
    (addresses (kept ++ (a, x) :: rest)).idxOf a = kept.length := by
  have hout : a ∉ kept.map Prod.fst := by
    have := h.apart.1
    simp only [addresses, List.map_append, List.mem_append, not_or] at this
    exact this.1
  rw [addresses, List.map_append, List.idxOf_append_of_notMem hout]
  simp

theorem queueCall_correct (h : Represents q s) (c : QueueCall α) (hc : c.Real q) :
    CallCorrect queueCall QueueCall.meaning q s c := by
  have hq := h.holds
  obtain rfl := h.stored
  cases c with
  | enqueue newData =>
    obtain ⟨q', hq', hholds⟩ := enqueue_holds hq newData
    exact ⟨q', _, .void, by simp [queueCall, hq'], rfl, represents_of_holds hholds (by simp [values])⟩
  | putHead newData =>
    obtain ⟨q', hq', hholds⟩ := putHead_holds hq newData
    exact ⟨q', _, .void, by simp [queueCall, hq'], rfl, represents_of_holds hholds (by simp [values])⟩
  | enqueueLimited newData limit =>
    have hlimited := enqueueLimited_holds hq newData limit
    have hlength : (values q.cells).length = q.cells.length := List.length_map _
    split_ifs at hlimited with hlt
    · obtain ⟨q', hq', hholds⟩ := hlimited
      refine ⟨q', _, .status 0, by simp [queueCall, hq'], ?_, represents_of_holds hholds rfl⟩
      simp [QueueCall.meaning, SeqOp.apply, hlt, values]
    · refine ⟨q, _, .status (-1), by simp [queueCall, hlimited], ?_, h⟩
      simp [QueueCall.meaning, SeqOp.apply, hlength, hlt]
  | dequeue =>
    cases hcells : q.cells with
    | nil =>
      rw [hcells] at hq
      exact ⟨q, [], .data none, by simp [queueCall, dequeue_nil hq], rfl, represents_of_holds hq rfl⟩
    | cons n rest =>
      obtain ⟨a, x⟩ := n
      rw [hcells] at hq
      obtain ⟨q', hq', hholds⟩ := dequeue_cons hq
      exact ⟨q', _, .data (some x), by simp [queueCall, hq'], rfl, represents_of_holds hholds rfl⟩
  | unchainChild parent child =>
    obtain ⟨kept, x, rest, hcells, rfl⟩ := hc
    rw [hcells] at hq
    obtain ⟨q', hq', hholds⟩ := unchainChild_holds hq
    refine ⟨q', _, .void, by simp [queueCall, hq'], ?_, represents_of_holds hholds rfl⟩
    rw [QueueCall.meaning, hcells, idxOf_addresses hq, SeqOp.apply, values_eraseIdx_middle]

theorem listCall_correct (h : Represents l s) (c : ListCall α) : CallCorrect listCall ListCall.meaning l s c := by
  have hl := h.holds
  obtain rfl := h.stored
  have hlength : (values l.cells).length = l.cells.length := List.length_map _
  cases c with
  | listAdd data =>
    obtain ⟨l', hl', hholds⟩ := listAdd_holds hl data
    exact ⟨l', _, .void, by simp [listCall, hl'], rfl, represents_of_holds hholds (by simp [values])⟩
  | listUnchainAt ix =>
    by_cases hix : 0 ≤ ix ∧ ix < l.cells.length
    · obtain ⟨k, rfl⟩ := Int.eq_ofNat_of_zero_le hix.1
      have hk : k < l.cells.length := by exact_mod_cast hix.2
      obtain ⟨kept, ⟨a, x⟩, rest, hcells, rfl⟩ : ∃ kept n rest, l.cells = kept ++ n :: rest ∧ kept.length = k :=
        ⟨l.cells.take k, l.cells[k], l.cells.drop (k + 1), by simp, by simp; omega⟩
      rw [hcells] at hl
      obtain ⟨l', hl', hholds⟩ := listUnchainAt_at hl
      have hx : (values l.cells)[kept.length]? = some x := by simp [hcells, values]
      refine ⟨l', _, .data (some x), by simp [listCall, hl'], ?_, represents_of_holds hholds rfl⟩
      rw [ListCall.meaning, SeqOp.apply, hlength, if_pos hix, Int.toNat_natCast, hx, hcells, values_eraseIdx_middle]
    · have hout : ix < 0 ∨ (l.cells.length : ℤ) ≤ ix := by omega
      refine ⟨l, _, .data none, by simp [listCall, listUnchainAt_out hl hout], ?_, h⟩
      simp only [ListCall.meaning, SeqOp.apply, hlength, hix, if_false]

theorem represents_empty : Represents (empty : Linked α) [] := represents_of_holds holds_empty rfl

/-- Every run of calls on a new queue or list goes through, returns what the operations on
mathematical lists return, and leaves a structure that represents their result. -/
theorem linked_runs_represent_sequences :
    (∀ calls : List (QueueCall α), RealCalls queueCall QueueCall.Real queueInit calls →
      ∃ q s replies, runCalls queueCall queueInit calls = some (q, replies) ∧
        applyAll [] (meanings queueCall QueueCall.meaning queueInit calls) = (s, replies) ∧ Represents q s) ∧
    ∀ calls : List (ListCall α),
      ∃ l s replies, runCalls listCall listNew calls = some (l, replies) ∧
        applyAll [] (meanings listCall ListCall.meaning listNew calls) = (s, replies) ∧ Represents l s := by
  constructor
  · intro calls hreal
    exact run_represents (fun l s c h hc => queueCall_correct h c hc) represents_empty calls hreal
  · intro calls
    have hreal : ∀ l : Linked α, RealCalls listCall (fun _ _ => True) l calls := by
      induction calls with
      | nil => exact fun _ => trivial
      | cons c calls ih => exact fun l => ⟨trivial, fun l' _ _ => ih l'⟩
    exact run_represents (fun l s c h _ => listCall_correct h c) represents_empty calls (hreal _)

/-- A queue that loses its middle cell, its head and then its only cell, and is used again. -/
theorem linked_runs_represent_sequences_reused :
    ∃ q s replies, runCalls queueCall queueInit [.enqueue 1, .putHead 0, .enqueue 2, .unchainChild (some 1) 0, .dequeue,
        .unchainChild none 2, .dequeue, .enqueueLimited 3 1, .enqueueLimited 4 1] = some (q, replies) ∧
      (s, replies) = ([3], [.void, .void, .void, .void, .data (some 0), .void, .data none, .status 0, .status (-1)]) ∧
      Represents q s := by
  obtain ⟨q, s, replies, hrun, hs, h⟩ := (@linked_runs_represent_sequences ℕ).1 [.enqueue 1, .putHead 0, .enqueue 2,
    .unchainChild (some 1) 0, .dequeue, .unchainChild none 2, .dequeue, .enqueueLimited 3 1, .enqueueLimited 4 1]
    (realCalls_cons trivial rfl <| realCalls_cons trivial rfl <| realCalls_cons trivial rfl <|
      realCalls_cons ⟨[(1, 0)], 1, [(2, 2)], rfl, rfl⟩ rfl <| realCalls_cons trivial rfl <|
      realCalls_cons ⟨[], 2, [], rfl, rfl⟩ rfl <| realCalls_cons trivial rfl <| realCalls_cons trivial rfl <|
      realCalls_cons trivial rfl trivial)
  exact ⟨q, s, replies, hrun, hs.symm.trans (by decide), h⟩

end StompBroker.QueueRuns
