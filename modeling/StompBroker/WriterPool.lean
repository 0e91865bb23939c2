import StompBroker.WriterThread
import StompBroker.TransitionSystem

/-! Writer threads over one output queue. Every message gets a number when it is enqueued, and
the order of the numbers is compared with the order on the sockets. -/
namespace StompBroker.WriterPool
open CString SessionStorage Message WriterThread TransitionSystem

structure Queued where
  seq : ℕ
  message : MessageWithFrameLen
  deriving DecidableEq, Repr

inductive Writer
  | idle
  | holding (batch : List Queued)
  | ended
  deriving DecidableEq, Repr

/-- `written` lists the frames handed to sockets, with the socket, oldest first. -/
structure Pool where
  queue : List Queued
  next : ℕ
  writers : ℕ → Writer
  written : List (Fd × Queued)

/-- Producers enqueue; a writer takes a batch under the queue lock; it writes its batch. In a
write the session table answers for each message, and the socket may stop accepting. -/
inductive Action
  | enqueue (m : MessageWithFrameLen)
  | take (w : ℕ)
  | write (w : ℕ) (registered : List Bool) (accepted : ℕ)
  deriving DecidableEq, Repr

def poolStart : Pool := ⟨[], 0, fun _ => .idle, []⟩

/-- A step of a pool of `count` writers with buffers of the given size. -/
def poolStep (count bufferSize : ℕ) (p : Pool) : Action → Option Pool
  | .enqueue m => some { p with queue := p.queue ++ [⟨p.next, m⟩], next := p.next + 1 }
  | .take w =>
      if w < count ∧ p.writers w = .idle ∧ p.queue ≠ [] then
        let (batch, rest) := tsDequeueMultipleMessagesForSameFd Queued.message p.queue bufferSize
        some { p with queue := rest, writers := Function.update p.writers w (.holding batch) }
      else none
  | .write w registered accepted =>
      if w < count then
        match p.writers w with
        | .holding batch =>
            match fillBuffer Queued.message batch registered with
            | none => some { p with writers := Function.update p.writers w .ended }
            | some out => some { p with
                writers := Function.update p.writers w .idle
                written := p.written ++
                  (out.take accepted).map fun x => (targetFd Queued.message batch, x) }
        | _ => none
      else none

def Queued.socket (x : Queued) : Fd := WriterThread.socket x.message

def held (p : Pool) (w : ℕ) : List Queued :=
  match p.writers w with
  | .holding batch => batch.filter fun x => !isPoison Queued.message x
  | _ => []

/-- The frames that were enqueued for a socket and written to it come in the order of their
numbers. -/
def InOrder (p : Pool) : Prop :=
  p.written.Pairwise fun a b =>
    a.1 = b.1 → a.2.socket = a.1 → b.2.socket = b.1 → a.2.seq < b.2.seq

/-- Before a batch is taken: no writer holds unwritten frames for a socket that the batch could
serve, and the queued frames for that socket carry one id. -/
def Exclusive (count : ℕ) (p : Pool) : Action → Prop
  | .take _ => ∀ x ∈ candidates Queued.message p.queue,
      (∀ v < count, ∀ y ∈ held p v, y.socket ≠ x.socket) ∧
      ∀ y ∈ p.queue, isPoison Queued.message y = false → y.socket = x.socket →
        y.message.fd = x.message.fd
  | _ => True

instance (p : Pool) : Decidable (InOrder p) :=
  inferInstanceAs (Decidable (p.written.Pairwise _))

instance (count : ℕ) (p : Pool) (a : Action) : Decidable (Exclusive count p a) :=
  match a with
  | .take _ => inferInstanceAs (Decidable (∀ x ∈ candidates Queued.message p.queue, _ ∧ _))
  | .enqueue _ => inferInstanceAs (Decidable True)
  | .write _ _ _ => inferInstanceAs (Decidable True)

/-- What the order on the sockets rests on: numbers grow along the queue and in each batch, and
for one socket along written, held and queued frames. -/
structure Ordered (count : ℕ) (p : Pool) : Prop where
  queue_sorted : p.queue.Pairwise fun x y => x.seq < y.seq
  queue_lt : ∀ x ∈ p.queue, x.seq < p.next
  held_sorted : ∀ v < count, (held p v).Pairwise fun x y => x.seq < y.seq
  held_lt : ∀ v < count, ∀ x ∈ held p v, x.seq < p.next
  held_queue : ∀ v < count, ∀ y ∈ held p v, ∀ x ∈ p.queue, isPoison Queued.message x = false →
    y.socket = x.socket → y.seq < x.seq
  held_apart : ∀ v < count, ∀ w < count, v ≠ w → ∀ y ∈ held p v, ∀ x ∈ held p w,
    y.socket ≠ x.socket
  written_lt : ∀ e ∈ p.written, e.2.seq < p.next
  written_queue : ∀ e ∈ p.written, e.2.socket = e.1 → ∀ x ∈ p.queue,
    isPoison Queued.message x = false → x.socket = e.1 → e.2.seq < x.seq
  written_held : ∀ e ∈ p.written, e.2.socket = e.1 → ∀ v < count, ∀ x ∈ held p v,
    x.socket = e.1 → e.2.seq < x.seq
  in_order : InOrder p

theorem ordered_start (count : ℕ) : Ordered count poolStart := by
  constructor <;> simp [poolStart, held, InOrder]

theorem Ordered.enqueue {count : ℕ} {p : Pool} (h : Ordered count p) (m : MessageWithFrameLen) :
    Ordered count { p with queue := p.queue ++ [⟨p.next, m⟩], next := p.next + 1 } where
  queue_sorted := by
    rw [List.pairwise_append]
    refine ⟨h.queue_sorted, List.pairwise_singleton _ _, fun x hx y hy => ?_⟩
    rw [List.mem_singleton.mp hy]
    exact h.queue_lt x hx
  queue_lt := by
    intro x hx
    rcases List.mem_append.mp hx with hx | hx
    · exact Nat.lt_succ_of_lt (h.queue_lt x hx)
    · rw [List.mem_singleton.mp hx]
      exact Nat.lt_succ_self _
  held_sorted := h.held_sorted
  held_lt := fun v hv x hx => Nat.lt_succ_of_lt (h.held_lt v hv x hx)
  held_queue := by
    intro v hv y hy x hx hp hs
    rcases List.mem_append.mp hx with hx | hx
    · exact h.held_queue v hv y hy x hx hp hs
    · rw [List.mem_singleton.mp hx]
      exact h.held_lt v hv y hy
  held_apart := h.held_apart
  written_lt := fun e he => Nat.lt_succ_of_lt (h.written_lt e he)
  written_queue := by
    intro e he hs x hx hp hxs
    rcases List.mem_append.mp hx with hx | hx
    · exact h.written_queue e he hs x hx hp hxs
    · rw [List.mem_singleton.mp hx]
      exact h.written_lt e he
  written_held := h.written_held
  in_order := h.in_order

theorem held_update (p : Pool) (v w : ℕ) (writer : Writer) (queue : List Queued)
    (written : List (Fd × Queued)) (next : ℕ) :
    held ⟨queue, next, Function.update p.writers w writer, written⟩ v =
      if v = w then match writer with
        | .holding batch => batch.filter fun x => !isPoison Queued.message x
        | _ => []
      else held p v := by
  unfold held
  by_cases h : v = w
  · subst h
    simp
  · simp [h]

/-- A taken batch holds, for each of its sockets, the first queued frames of the socket. -/
theorem Ordered.seq_lt_of_taken {count bufferSize w : ℕ} {p : Pool} {batch rest : List Queued}
    (h : Ordered count p) (hx : Exclusive count p (.take w))
    (ht : tsDequeueMultipleMessagesForSameFd Queued.message p.queue bufferSize = (batch, rest)) :
    ∀ y ∈ sendable Queued.message batch, ∀ x ∈ rest, isPoison Queued.message x = false →
      y.socket = x.socket → y.seq < x.seq := by
  intro y hy x hxr hp hs
  have hcand := mem_candidates_of_sendable Queued.message bufferSize p.queue (x := y)
  have hrest := (pickUp_sublist Queued.message 0 0 bufferSize p.queue).2
  have hf := pickUp_filter Queued.message 0 0 bufferSize p.queue y.message.fd
  rw [ht] at hcand
  rw [show pickUp Queued.message 0 0 bufferSize p.queue = (batch, rest) from ht] at hrest hf
  have hid : x.message.fd = y.message.fd := (hx y (hcand hy)).2 x (hrest.mem hxr) hp hs.symm
  -- the frames of this id stand in the batch first and then in the rest, in the order of the queue
  have hsorted := h.queue_sorted.filter fun z => z.message.fd == y.message.fd
  rw [← hf, List.pairwise_append] at hsorted
  refine hsorted.2.2 y ?_ x ?_
  · exact List.mem_filter.mpr ⟨(List.mem_filter.mp hy).1, by simp⟩
  · exact List.mem_filter.mpr ⟨hxr, by simp [hid]⟩

theorem Ordered.take {count bufferSize w : ℕ} {p : Pool} {batch rest : List Queued}
    (h : Ordered count p) (hx : Exclusive count p (.take w))
    (ht : tsDequeueMultipleMessagesForSameFd Queued.message p.queue bufferSize = (batch, rest)) :
    Ordered count
      { p with queue := rest, writers := Function.update p.writers w (.holding batch) } := by
  obtain ⟨hbatch, hrest⟩ : batch.Sublist p.queue ∧ rest.Sublist p.queue := by
    have := pickUp_sublist Queued.message 0 0 bufferSize p.queue
    rwa [show pickUp Queued.message 0 0 bufferSize p.queue = (batch, rest) from ht] at this
  have hcand : ∀ x ∈ sendable Queued.message batch, x ∈ candidates Queued.message p.queue := by
    intro x hm
    apply mem_candidates_of_sendable Queued.message bufferSize
    rwa [ht]
  have hsend : (sendable Queued.message batch).Sublist p.queue :=
    List.filter_sublist.trans hbatch
  constructor
  case queue_sorted => exact h.queue_sorted.sublist hrest
  case queue_lt => exact fun x hm => h.queue_lt x (hrest.mem hm)
  case held_sorted =>
    intro v hv
    rw [held_update]
    split_ifs
    · exact h.queue_sorted.sublist hsend
    · exact h.held_sorted v hv
  case held_lt =>
    intro v hv x hm
    rw [held_update] at hm
    split_ifs at hm
    · exact h.queue_lt x (hsend.mem hm)
    · exact h.held_lt v hv x hm
  case held_queue =>
    intro v hv y hy x hm hp hs
    rw [held_update] at hy
    split_ifs at hy
    · exact h.seq_lt_of_taken hx ht y hy x hm hp hs
    · exact h.held_queue v hv y hy x (hrest.mem hm) hp hs
  case held_apart =>
    intro v hv u hu hne y hy x hm
    rw [held_update] at hy hm
    split_ifs at hy hm with h1 h2 h2
    · exact absurd (h1.trans h2.symm) hne
    · exact ((hx y (hcand y hy)).1 u hu x hm).symm
    · exact (hx x (hcand x hm)).1 v hv y hy
    · exact h.held_apart v hv u hu hne y hy x hm
  case written_lt => exact h.written_lt
  case written_queue => exact fun e he hs x hm => h.written_queue e he hs x (hrest.mem hm)
  case written_held =>
    intro e he hs v hv x hm hxs
    rw [held_update] at hm
    split_ifs at hm
    · exact h.written_queue e he hs x (hsend.mem hm) (by simpa using (List.mem_filter.mp hm).2) hxs
    · exact h.written_held e he hs v hv x hm hxs
  case in_order => exact h.in_order

theorem Ordered.write {count w : ℕ} {p : Pool} {out : List Queued} (h : Ordered count p)
    (writer : Writer) (t : Fd) (hw : w < count) (hwriter : ∀ batch, writer ≠ .holding batch)
    (hout : out.Sublist (held p w)) :
    Ordered count { p with
      writers := Function.update p.writers w writer
      written := p.written ++ out.map fun x => (t, x) } := by
  have hheld : ∀ v queue written next x,
      x ∈ held ⟨queue, next, Function.update p.writers w writer, written⟩ v → v ≠ w ∧ x ∈ held p v := by
    intro v queue written next x hm
    rw [held_update] at hm
    split_ifs at hm with hv
    · cases writer with
      | holding batch => exact absurd rfl (hwriter batch)
      | idle => simp at hm
      | ended => simp at hm
    · exact ⟨hv, hm⟩
  constructor
  case queue_sorted => exact h.queue_sorted
  case queue_lt => exact h.queue_lt
  case held_sorted =>
    intro v hv
    rw [held_update]
    split_ifs
    · cases writer with
      | holding batch => exact absurd rfl (hwriter batch)
      | idle => exact .nil
      | ended => exact .nil
    · exact h.held_sorted v hv
  case held_lt => exact fun v hv x hm => h.held_lt v hv x (hheld _ _ _ _ _ hm).2
  case held_queue => exact fun v hv y hy => h.held_queue v hv y (hheld _ _ _ _ _ hy).2
  case held_apart =>
    intro v hv u hu hne y hy x hm
    exact h.held_apart v hv u hu hne y (hheld _ _ _ _ _ hy).2 x (hheld _ _ _ _ _ hm).2
  case written_lt =>
    intro e he
    rcases List.mem_append.mp he with he | he
    · exact h.written_lt e he
    · obtain ⟨x, hm, rfl⟩ := List.mem_map.mp he
      exact h.held_lt w hw x (hout.mem hm)
  case written_queue =>
    intro e he hs x hm hp hxs
    rcases List.mem_append.mp he with he | he
    · exact h.written_queue e he hs x hm hp hxs
    · obtain ⟨y, hy, rfl⟩ := List.mem_map.mp he
      exact h.held_queue w hw y (hout.mem hy) x hm hp (hs.trans hxs.symm)
  case written_held =>
    intro e he hs v hv x hm hxs
    obtain ⟨hvw, hm⟩ := hheld _ _ _ _ _ hm
    rcases List.mem_append.mp he with he | he
    · exact h.written_held e he hs v hv x hm hxs
    · obtain ⟨y, hy, rfl⟩ := List.mem_map.mp he
      exact absurd (hxs.trans hs.symm) (h.held_apart v hv w hw hvw x hm y (hout.mem hy))
  case in_order =>
    refine List.pairwise_append.mpr ⟨h.in_order, ?_, ?_⟩
    · rw [List.pairwise_map]
      exact ((h.held_sorted w hw).sublist hout).imp fun hlt _ _ _ => hlt
    · intro e he e' he'
      obtain ⟨x, hm, rfl⟩ := List.mem_map.mp he'
      intro heq hs hxs
      exact h.written_held e he hs w hw x (hout.mem hm) (hxs.trans heq.symm)

/-- One step of the pool under the condition. -/
theorem Ordered.step {count bufferSize : ℕ} {p p' : Pool} {a : Action} (h : Ordered count p)
    (hx : Exclusive count p a) (hs : poolStep count bufferSize p a = some p') : Ordered count p' := by
  cases a with
  | enqueue m =>
    cases hs
    exact h.enqueue m
  | take w =>
    simp only [poolStep] at hs
    split_ifs at hs with hw
    cases hs
    exact h.take hx rfl
  | write w registered accepted =>
    simp only [poolStep] at hs
    split_ifs at hs with hw
    cases hwr : p.writers w with
    | idle => simp [hwr] at hs
    | ended => simp [hwr] at hs
    | holding batch =>
      simp only [hwr] at hs
      cases hf : fillBuffer Queued.message batch registered with
      | none =>
        simp only [hf] at hs
        cases hs
        simpa using h.write .ended 0 hw (fun b => by simp) (List.nil_sublist _)
      | some out =>
        simp only [hf] at hs
        cases hs
        obtain ⟨hsub, hlive⟩ := fillBuffer_sublist hf
        have hheld : out.Sublist (held p w) := by
          have := hsub.filter fun x => !isPoison Queued.message x
          rw [List.filter_eq_self.mpr fun x hm => by simp [hlive x hm]] at this
          simpa only [held, hwr] using this
        exact h.write .idle _ hw (fun b => by simp) ((List.take_sublist _ _).trans hheld)

/-- In every run in which a writer takes frames for a socket only while no other one still holds
some, and under one id, the frames of each socket are written in the order of the queue. -/
theorem inOrder_of_exclusive {count bufferSize : ℕ} {actions : List Action} {p : Pool}
    (h : Run (Guarded (Exclusive count) (Steps (poolStep count bufferSize))) poolStart actions p) :
    InOrder p := by
  refine (h.invariant (I := Ordered count) (ordered_start count) ?_).in_order
  rintro p a p' hp ⟨hx, hs⟩
  exact hp.step hx hs

/-- Two writers with batches for different sockets, then a second batch for the first one. -/
def twoSockets : List Action :=
  [.enqueue (messageCreateWithFrameLen 5 (lit "a")), .take 0,
    .enqueue (messageCreateWithFrameLen 6 (lit "b")), .take 1, .write 1 [true] 1,
    .write 0 [true] 1, .enqueue (messageCreateWithFrameLen 5 (lit "c")), .take 1,
    .write 1 [true] 1]

theorem inOrder_twoSockets :
    ∃ p, Run (Guarded (Exclusive 2) (Steps (poolStep 2 10000))) poolStart twoSockets p ∧
      p.written.length = 3 ∧ InOrder p := by
  obtain ⟨p, hrun, hlen⟩ : ∃ p, Run (Guarded (Exclusive 2) (Steps (poolStep 2 10000))) poolStart
      twoSockets p ∧ p.written.length = 3 :=
    exists_guarded_run_of_exec (P := fun p : Pool => p.written.length = 3) (by decide)
  exact ⟨p, hrun, hlen, inOrder_of_exclusive hrun⟩

/-- Two frames for one socket go to two writers, and the second writer is faster. -/
theorem overtaking_not_inOrder :
    ∃ p, Run (Steps (poolStep 2 10000)) poolStart
      [.enqueue (messageCreateWithFrameLen 5 (lit "a")), .take 0,
        .enqueue (messageCreateWithFrameLen 5 (lit "b")), .take 1, .write 1 [true] 1,
        .write 0 [true] 1] p ∧ ¬ InOrder p :=
  exists_run_of_exec (P := fun p => ¬ InOrder p) (by decide)

end StompBroker.WriterPool
