import StompBroker.BrokerHistory
import StompBroker.WriterFrames
import StompBroker.OutputStream
import StompBroker.Threads

/-! From the calls of the reader to the texts of a client. The frames of the processor go over the output queue
and the writers into a stream of bytes for each socket. -/
namespace StompBroker.ClientView
open CString SessionStorage Message Dataframe Distribute Stomp StompRun ReaderThread WriterThread WriteLoop WriterIteration
open WriterPool BatchExtraction WriterFrames OutputStream BrokerHistory TransitionSystem
open Threads (topics_cases)
open WriterWait (enqueueAll enqueueAll_queue poolStep_take poolStep_write)
open Reassembly (Pending encodeAll exists_split)

/-- The reader, how many of its frames are on the queue, the writers, the bytes that each socket took, and the sockets
whose connection was dropped. -/
structure Line where
  reader : StompState
  enqueued : ℕ
  pool : Pool
  streams : Fd → List UInt8
  dropped : Fd → Bool

/-- A round of the reader, its next frames put on the queue, and the steps of a writer with the answers of the session
table and of the socket. -/
inductive Event
  | serve (c : Call)
  | enqueue (n : ℕ)
  | take (w : ℕ)
  | write (w : ℕ) (registered : List Bool) (answers : Socket) (clock : ℕ)

/-- The messages that the first bytes of a buffer hold as a whole. -/
def wholeFrames : List MessageWithFrameLen → ℕ → ℕ
  | [], _ => 0
  | m :: ms, n => if (wsOutputFilter m).length ≤ n then wholeFrames ms (n - (wsOutputFilter m).length) + 1 else 0

/-- `fd_with_session` behind the loop over the batch. -/
def fdWithSession (batch : List Queued) : Fd := (batch.getLast?.map fun x => x.message.fd).getD 0

def copied (batch : List Queued) (registered : List Bool) : List MessageWithFrameLen :=
  ((fillBuffer Queued.message batch registered).getD []).map Queued.message

/-- What the socket takes of the write buffer, and whether the connection is dropped. -/
def writeOut (batch : List Queued) (registered : List Bool) (answers : Socket) (clock : ℕ) : List UInt8 × ℕ :=
  let buffer := (copied batch registered).flatMap wsOutputFilter
  let (attempts, closes) := writeBuffer answers clock buffer
  (accepted buffer attempts, closes)

def lineStart : Line := ⟨stompStart, 0, poolStart, fun _ => [], fun _ => false⟩

/-- A step of the reader and of `count` writers with buffers of the given size. A copy over the end of the write buffer
has no next state. -/
def lineStep (createAcceptKey : CStr → CStr) (cfg : Config) (count bufferSize : ℕ) (l : Line) : Event → Option Line
  | .serve c => (readerThread createAcceptKey cfg l.reader c).map fun reader => { l with reader := reader }
  | .enqueue n =>
      if l.enqueued + n ≤ l.reader.output.length then
        some { l with
          enqueued := l.enqueued + n
          pool := enqueueAll l.pool ((l.reader.output.drop l.enqueued).take n) }
      else none
  | .take w => (poolStep count bufferSize l.pool (.take w)).map fun pool => { l with pool := pool }
  | .write w registered answers clock =>
      let batch := batchOf (l.pool.writers w)
      let fd := sessionWithoutFlags (fdWithSession batch)
      let out := writeOut batch registered answers clock
      if copyLoop Queued.message bufferSize batch registered = .overrun then none
      else (poolStep count bufferSize l.pool (.write w registered (wholeFrames (copied batch registered) out.1.length))).map
        fun pool => { l with
          pool := pool
          streams := Function.update l.streams fd (l.streams fd ++ out.1)
          dropped := if out.2 = 0 then l.dropped else Function.update l.dropped fd true }

def callsOf : Event → List Call
  | .serve c => [c]
  | _ => []

def calls (events : List Event) : List Call := events.flatMap callsOf

/-- Two writers do not hold frames of the client at a time, none are taken while frames with and without the websocket
flag are queued for it, and nothing is written to it once its connection was dropped. -/
def Orderly (count bufferSize : ℕ) (client : Fd) (l : Line) : Event → Prop
  | .serve c => Addressable c.input.fd
  | .take w =>
      (∃ x ∈ (tsDequeueMultipleMessagesForSameFd Queued.message l.pool.queue bufferSize).1,
        descriptorOf x.message.fd = client) →
      (∀ v < count, v ≠ w → ∀ x ∈ batchOf (l.pool.writers v), descriptorOf x.message.fd ≠ client) ∧
      ∀ x ∈ l.pool.queue, descriptorOf x.message.fd = client → ∀ y ∈ l.pool.queue, descriptorOf y.message.fd = client →
        x.message.fd = y.message.fd
  | .write w _ _ _ => sessionWithoutFlags (fdWithSession (batchOf (l.pool.writers w))) = client → l.dropped client = false
  | _ => True

/-- A write for the client copies its batch and is not given up. -/
def Delivers (client : Fd) (l : Line) : Event → Prop
  | .write w registered answers clock =>
      ((∃ x ∈ batchOf (l.pool.writers w), descriptorOf x.message.fd = client) →
        fillBuffer Queued.message (batchOf (l.pool.writers w)) registered = some (batchOf (l.pool.writers w))) ∧
      (sessionWithoutFlags (fdWithSession (batchOf (l.pool.writers w))) = client →
        (writeOut (batchOf (l.pool.writers w)) registered answers clock).2 = 0)
  | _ => True

def forClient (client : Fd) (ms : List MessageWithFrameLen) : List MessageWithFrameLen :=
  ms.filter fun m => descriptorOf m.fd == client

def writtenFor (client : Fd) (p : Pool) : List MessageWithFrameLen := forClient client (p.written.map fun e => e.2.message)

/-- The frames for the client on their way, from the socket back to the queue; at most one writer holds some. -/
def onTheWay (client : Fd) (holder : ℕ) (p : Pool) : List MessageWithFrameLen :=
  writtenFor client p ++ forClient client ((batchOf (p.writers holder)).map Queued.message) ++
    forClient client (p.queue.map Queued.message)

variable {createAcceptKey : CStr → CStr} {cfg : Config} {count bufferSize holder w : ℕ} {client : Fd}
  {websocket : Bool} {l l' : Line} {e : Event} {events : List Event}

theorem wholeFrames_eq {front back : List MessageWithFrameLen} {rest : List UInt8} (h : Pending wsOutputFilter back rest) :
    wholeFrames (front ++ back) (encodeAll wsOutputFilter front ++ rest).length = front.length := by
  induction front with
  | nil =>
    cases back with
    | nil => rfl
    | cons m back =>
      have hpos := List.length_pos_of_ne_nil (wsOutputFilter_ne_nil m)
      have hlt : rest.length < (wsOutputFilter m).length := by
        rcases h with rfl | ⟨_, _, hm, hbegins, hne⟩
        · exact hpos
        · obtain ⟨rfl, rfl⟩ := List.cons_eq_cons.1 hm
          exact lt_of_le_of_ne hbegins.length_le fun heq => hne (hbegins.eq_of_length heq)
      rw [List.nil_append, wholeFrames, if_neg (by simpa using hlt)]
      rfl
  | cons m front ih =>
    rw [List.cons_append, wholeFrames, Reassembly.encodeAll_cons, List.append_assoc, List.length_append, if_pos (by omega),
      Nat.add_sub_cancel_left, ih, List.length_cons]

theorem writeOut_cases (batch : List Queued) (registered : List Bool) (answers : Socket) (clock : ℕ) :
    ∃ front back rest, copied batch registered = front ++ back ∧ Pending wsOutputFilter back rest ∧
      (writeOut batch registered answers clock).1 = encodeAll wsOutputFilter front ++ rest ∧
      ((writeOut batch registered answers clock).2 = 0 → back = [] ∧ rest = []) := by
  have hwrite := writeBuffer_sent answers clock (encodeAll wsOutputFilter (copied batch registered))
  have hprefix : (writeOut batch registered answers clock).1 <+: encodeAll wsOutputFilter (copied batch registered) := by
    rcases hwrite with ⟨-, hsent⟩ | ⟨-, rest, -, hsent⟩
    · exact ⟨[], by rw [List.append_nil]; exact hsent⟩
    · exact ⟨rest, hsent⟩
  obtain ⟨front, back, rest, hcopied, hsent, hpending⟩ := exists_split hprefix
  refine ⟨front, back, rest, hcopied, hpending, hsent, fun hc => ?_⟩
  rcases hwrite with ⟨-, hfull⟩ | ⟨hone, -⟩
  · have hall : (writeOut batch registered answers clock).1 = encodeAll wsOutputFilter (copied batch registered) := hfull
    rw [hall, hcopied, Reassembly.encodeAll_append, List.append_cancel_left_eq] at hsent
    exact hpending.eq_nil wsOutputFilter_ne_nil hsent.symm
  · have hone' : (writeOut batch registered answers clock).2 = 1 := hone
    rw [hc] at hone'
    cases hone'

/-- What holds whatever the client is: everything is for addressable descriptors, queued frames are of the reader, and a
batch is for one id. -/
structure Sourced (l : Line) : Prop where
  topics : ∀ sub ∈ l.reader.topics, Addressable sub.sessionId
  output : ∀ m ∈ l.reader.output, Addressable m.fd
  enqueued : l.enqueued ≤ l.reader.output.length
  queue : ∀ x ∈ l.pool.queue, Addressable x.message.fd
  held : ∀ w, ∀ x ∈ batchOf (l.pool.writers w),
    Addressable x.message.fd ∧ x.message.fd = fdWithSession (batchOf (l.pool.writers w))

theorem sourced_start : Sourced lineStart where
  topics := nofun
  output := nofun
  enqueued := le_rfl
  queue := nofun
  held := by simp [lineStart, poolStart, batchOf]

theorem fdWithSession_eq {batch : List Queued} {fd : Fd} (h : ∀ x ∈ batch, x.message.fd = fd) :
    ∀ x ∈ batch, x.message.fd = fdWithSession batch := by
  intro x hx
  obtain ⟨last, hlast⟩ := List.getLast?_isSome.2 (List.ne_nil_of_mem hx) |> Option.isSome_iff_exists.1
  rw [fdWithSession, hlast, Option.map_some, Option.getD_some, h x hx, h last (List.mem_of_getLast? hlast)]

theorem batchOf_update (p : Pool) (w v : ℕ) (new : Writer) :
    batchOf (Function.update p.writers w new v) = if v = w then batchOf new else batchOf (p.writers v) := by
  by_cases hv : v = w
  · subst hv
    simp
  · simp [hv]

theorem write_next {registered : List Bool} {answers : Socket} {clock : ℕ}
    (hs : lineStep createAcceptKey cfg count bufferSize l (.write w registered answers clock) = some l') :
    ∃ pool, poolStep count bufferSize l.pool (.write w registered (wholeFrames (copied (batchOf (l.pool.writers w)) registered)
        (writeOut (batchOf (l.pool.writers w)) registered answers clock).1.length)) = some pool ∧
      l' = { l with
        pool := pool
        streams := Function.update l.streams (sessionWithoutFlags (fdWithSession (batchOf (l.pool.writers w))))
          (l.streams (sessionWithoutFlags (fdWithSession (batchOf (l.pool.writers w)))) ++
            (writeOut (batchOf (l.pool.writers w)) registered answers clock).1)
        dropped := if (writeOut (batchOf (l.pool.writers w)) registered answers clock).2 = 0 then l.dropped
          else Function.update l.dropped (sessionWithoutFlags (fdWithSession (batchOf (l.pool.writers w)))) true } := by
  by_cases hover : copyLoop Queued.message bufferSize (batchOf (l.pool.writers w)) registered = .overrun
  · simp [lineStep, hover] at hs
  simp only [lineStep, if_neg hover] at hs
  obtain ⟨pool, hpool, rfl⟩ := Option.map_eq_some_iff.1 hs
  exact ⟨pool, hpool, rfl⟩

theorem Sourced.serve (h : Sourced l) {c : Call} (ho : Orderly count bufferSize client l (.serve c))
    (hs : lineStep createAcceptKey cfg count bufferSize l (.serve c) = some l') : Sourced l' := by
  obtain ⟨reader, hround, rfl⟩ := Option.map_eq_some_iff.1 hs
  obtain ⟨hchange, frames, hout, horigin⟩ := readerThread_spec hround
  refine ⟨?_, ?_, ?_, h.queue, h.held⟩
  · intro sub hsub
    rcases topics_cases hchange with ⟨q, htopics⟩ | ⟨new, htopics, hnew⟩
    · rw [htopics] at hsub
      exact h.topics sub (List.mem_filter.1 hsub).1
    · rw [htopics] at hsub
      rcases List.mem_append.1 hsub with hsub | hsub
      · exact h.topics sub hsub
      · rw [List.mem_singleton.1 hsub, hnew]
        exact ho
  · intro m hm
    rw [hout] at hm
    rcases List.mem_append.1 hm with hm | hm
    · exact h.output m hm
    · cases horigin m hm with
      | reply _ hf => exact hf ▸ ho
      | stale _ _ _ _ hf => exact hf ▸ ho
      | message sub hsub _ _ _ hf => exact hf ▸ h.topics sub hsub
  · rw [hout, List.length_append]
    exact h.enqueued.trans (Nat.le_add_right _ _)

theorem Sourced.enqueue (h : Sourced l) {n : ℕ}
    (hs : lineStep createAcceptKey cfg count bufferSize l (.enqueue n) = some l') : Sourced l' := by
  simp only [lineStep] at hs
  split_ifs at hs with hn
  obtain rfl := Option.some_inj.1 hs
  obtain ⟨hqueue, hwriters, -⟩ := enqueueAll_queue l.pool ((l.reader.output.drop l.enqueued).take n)
  refine ⟨h.topics, h.output, hn, fun x hx => ?_, ?_⟩
  · have hm := List.mem_map_of_mem (f := Queued.message) hx
    rw [hqueue] at hm
    rcases List.mem_append.1 hm with hm | hm
    · obtain ⟨y, hy, hxy⟩ := List.mem_map.1 hm
      exact hxy ▸ h.queue y hy
    · exact h.output _ (List.mem_of_mem_drop (List.mem_of_mem_take hm))
  · simp only [hwriters]
    exact h.held

theorem Sourced.step (h : Sourced l) (ho : Orderly count bufferSize client l e)
    (hs : lineStep createAcceptKey cfg count bufferSize l e = some l') : Sourced l' := by
  cases e with
  | serve c => exact h.serve ho hs
  | enqueue n => exact h.enqueue hs
  | take w =>
    obtain ⟨pool, hpool, rfl⟩ := Option.map_eq_some_iff.1 hs
    obtain ⟨-, -, -, rfl⟩ := poolStep_take hpool
    have hpicked := pickUp_sublist Queued.message 0 0 bufferSize l.pool.queue
    refine ⟨h.topics, h.output, h.enqueued, fun x hx => h.queue x (hpicked.2.mem hx), fun v x hx => ?_⟩
    simp only [batchOf_update] at hx ⊢
    split_ifs at hx ⊢ with hv
    · obtain ⟨fd, hfd⟩ := pickUp_oneId (fun y hy => (h.queue y hy).1)
        fun y hy => isPoison_eq_false.2 (h.queue y (hpicked.1.mem hy)).not_poison
      exact ⟨h.queue x (hpicked.1.mem hx), fdWithSession_eq hfd x hx⟩
    · exact h.held v x hx
  | write w registered answers clock =>
    obtain ⟨pool, hpool, rfl⟩ := write_next hs
    obtain ⟨-, batch, -, ⟨-, rfl⟩ | ⟨out, -, rfl⟩⟩ := poolStep_write hpool
    all_goals
      refine ⟨h.topics, h.output, h.enqueued, h.queue, fun v x hx => ?_⟩
      simp only [batchOf_update] at hx ⊢
      split_ifs at hx ⊢ with hv
      · simp [batchOf] at hx
      · exact h.held v x hx

theorem forClient_append (ms ms' : List MessageWithFrameLen) :
    forClient client (ms ++ ms') = forClient client ms ++ forClient client ms' := List.filter_append ms ms'

theorem forClient_eq_self {ms : List MessageWithFrameLen} (h : ∀ m ∈ ms, descriptorOf m.fd = client) :
    forClient client ms = ms :=
  List.filter_eq_self.2 fun m hm => by simp [h m hm]

theorem forClient_eq_nil {ms : List MessageWithFrameLen} (h : ∀ m ∈ ms, descriptorOf m.fd ≠ client) :
    forClient client ms = [] :=
  List.filter_eq_nil_iff.2 fun m hm => by simp [h m hm]

theorem forClient_batch_eq_nil {batch : List Queued} (h : ∀ x ∈ batch, descriptorOf x.message.fd ≠ client) :
    forClient client (batch.map Queued.message) = [] :=
  forClient_eq_nil (List.forall_mem_map.2 h)

theorem mem_forClient {ms : List MessageWithFrameLen} {m : MessageWithFrameLen} :
    m ∈ forClient client ms ↔ m ∈ ms ∧ descriptorOf m.fd = client := by
  simp [forClient]

/-- The stream of a client is the written frames and the beginning of a next one; the frames on their way are some of
those enqueued, in order. -/
structure Kept (count : ℕ) (client : Fd) (holder : ℕ) (l : Line) : Prop where
  writer : holder < count ∨ batchOf (l.pool.writers holder) = []
  alone : ∀ v < count, v ≠ holder → ∀ x ∈ batchOf (l.pool.writers v), descriptorOf x.message.fd ≠ client
  places : (onTheWay client holder l.pool).Sublist (forClient client (l.reader.output.take l.enqueued))
  stream : ∃ next rest, l.streams client = encodeAll wsOutputFilter (writtenFor client l.pool) ++ rest ∧
    Pending wsOutputFilter next rest ∧ (∀ m ∈ next, m ∈ forClient client l.reader.output) ∧
    (l.dropped client = false → rest = [])

def Complete (client : Fd) (holder : ℕ) (l : Line) : Prop :=
  onTheWay client holder l.pool = forClient client (l.reader.output.take l.enqueued)

theorem kept_start : Kept count client 0 lineStart where
  writer := .inr rfl
  alone := by simp [lineStart, poolStart, batchOf]
  places := by simp [lineStart, poolStart, onTheWay, writtenFor, forClient, batchOf]
  stream := ⟨[], [], by simp [lineStart, poolStart, writtenFor, forClient], .inl rfl, nofun, fun _ => rfl⟩

theorem complete_start : Complete client 0 lineStart := by
  simp [Complete, lineStart, poolStart, onTheWay, writtenFor, forClient, batchOf]

theorem Kept.held_eq_nil (h : Kept count client holder l)
    (hnone : holder < count → ∀ x ∈ batchOf (l.pool.writers holder), descriptorOf x.message.fd ≠ client) :
    forClient client ((batchOf (l.pool.writers holder)).map Queued.message) = [] := by
  rcases h.writer with hlt | hempty
  · exact forClient_batch_eq_nil (hnone hlt)
  · rw [hempty]
    rfl

theorem Kept.rearrange (h : Kept count client holder l) {p : Pool} {v : ℕ} (hwritten : p.written = l.pool.written)
    (hway : onTheWay client v p = onTheWay client holder l.pool) (hwriter : v < count ∨ batchOf (p.writers v) = [])
    (halone : ∀ u < count, u ≠ v → ∀ x ∈ batchOf (p.writers u), descriptorOf x.message.fd ≠ client) :
    Kept count client v { l with pool := p } ∧ (Complete client holder l → Complete client v { l with pool := p }) := by
  refine ⟨⟨hwriter, halone, ?_, ?_⟩, fun hall => ?_⟩
  · rw [hway]
    exact h.places
  · rw [writtenFor, hwritten]
    exact h.stream
  · rw [Complete, hway]
    exact hall

theorem Kept.serve (h : Kept count client holder l) (hsrc : Sourced l) {c : Call}
    (hs : lineStep createAcceptKey cfg count bufferSize l (.serve c) = some l') :
    Kept count client holder l' ∧ (Complete client holder l → Complete client holder l') := by
  obtain ⟨reader, hround, rfl⟩ := Option.map_eq_some_iff.1 hs
  obtain ⟨-, frames, hout, -⟩ := readerThread_spec hround
  have hsame : reader.output.take l.enqueued = l.reader.output.take l.enqueued := by
    rw [hout, List.take_append_of_le_length hsrc.enqueued]
  obtain ⟨next, rest, hstream, hpending, hnext, hrest⟩ := h.stream
  refine ⟨⟨h.writer, h.alone, ?_, next, rest, hstream, hpending, fun m hm => ?_, hrest⟩, fun hall => ?_⟩
  · rw [hsame]
    exact h.places
  · rw [hout, forClient_append]
    exact List.mem_append_left _ (hnext m hm)
  · rw [Complete, hsame]
    exact hall

theorem Kept.enqueue (h : Kept count client holder l) {n : ℕ}
    (hs : lineStep createAcceptKey cfg count bufferSize l (.enqueue n) = some l') :
    Kept count client holder l' ∧ (Complete client holder l → Complete client holder l') := by
  simp only [lineStep] at hs
  split_ifs at hs with hn
  obtain rfl := Option.some_inj.1 hs
  obtain ⟨hqueue, hwriters, hwritten⟩ := enqueueAll_queue l.pool ((l.reader.output.drop l.enqueued).take n)
  have hway : onTheWay client holder (enqueueAll l.pool ((l.reader.output.drop l.enqueued).take n)) =
      onTheWay client holder l.pool ++ forClient client ((l.reader.output.drop l.enqueued).take n) := by
    rw [onTheWay, onTheWay, writtenFor, writtenFor, hqueue, hwriters, hwritten, forClient_append, ← List.append_assoc]
  have hout : forClient client (l.reader.output.take (l.enqueued + n)) = forClient client (l.reader.output.take l.enqueued) ++
      forClient client ((l.reader.output.drop l.enqueued).take n) := by
    rw [List.take_add, forClient_append]
  refine ⟨⟨?_, ?_, ?_, ?_⟩, fun hall => ?_⟩
  · simp only [hwriters]
    exact h.writer
  · simp only [hwriters]
    exact h.alone
  · rw [hway, hout]
    exact h.places.append (.refl _)
  · simp only [writtenFor, hwritten]
    exact h.stream
  · rw [Complete, hway, hout, hall]

/-- A batch takes the first frames of a client off the queue, when these carry one id. -/
theorem forClient_pickUp {q : List Queued} (hone : ∀ x ∈ q, descriptorOf x.message.fd = client → ∀ y ∈ q,
    descriptorOf y.message.fd = client → x.message.fd = y.message.fd) (bufferSize : ℕ)
    (hhas : ∃ x ∈ q, descriptorOf x.message.fd = client) :
    forClient client ((pickUp Queued.message 0 0 bufferSize q).1.map Queued.message) ++
      forClient client ((pickUp Queued.message 0 0 bufferSize q).2.map Queued.message) =
        forClient client (q.map Queued.message) := by
  obtain ⟨x, hx, hclient⟩ := hhas
  have hid : ∀ ms : List Queued, ms.Sublist q →
      forClient client (ms.map Queued.message) = (ms.filter fun y => y.message.fd == x.message.fd).map Queued.message := by
    intro ms hms
    rw [forClient, List.filter_map]
    refine congrArg _ (List.filter_congr fun y hy => ?_)
    rw [Function.comp_apply, Bool.eq_iff_iff, beq_iff_eq, beq_iff_eq]
    exact ⟨fun h => hone y (hms.mem hy) h x hx hclient, fun h => by rw [h, hclient]⟩
  obtain ⟨hbatch, hrest⟩ := pickUp_sublist Queued.message 0 0 bufferSize q
  rw [hid _ hbatch, hid _ hrest, hid q (.refl q), ← List.map_append, pickUp_filter]

theorem forClient_pickUp_other {q : List Queued}
    (hnone : ∀ x ∈ (pickUp Queued.message 0 0 bufferSize q).1, descriptorOf x.message.fd ≠ client) :
    forClient client ((pickUp Queued.message 0 0 bufferSize q).2.map Queued.message) = forClient client (q.map Queued.message) := by
  have hperm := ((pickUp_perm Queued.message 0 0 bufferSize q).map Queued.message).filter fun m => descriptorOf m.fd == client
  rw [List.map_append, List.filter_append, ← forClient, ← forClient, ← forClient, forClient_batch_eq_nil hnone,
    List.nil_append] at hperm
  have hsub := ((pickUp_sublist Queued.message 0 0 bufferSize q).2.map Queued.message).filter
    fun m => descriptorOf m.fd == client
  exact hsub.eq_of_length hperm.length_eq

section Taken
variable {batch queue : List Queued}

theorem Kept.take_own (h : Kept count client holder l) (hw : w < count) (hidle : batchOf (l.pool.writers w) = [])
    (hothers : ∀ v < count, v ≠ w → ∀ x ∈ batchOf (l.pool.writers v), descriptorOf x.message.fd ≠ client)
    (hsplit : forClient client (batch.map Queued.message) ++ forClient client (queue.map Queued.message) =
      forClient client (l.pool.queue.map Queued.message))
    (hl : l' = { l with
      pool := { l.pool with queue := queue, writers := Function.update l.pool.writers w (.holding batch) } }) :
    Kept count client w l' ∧ (Complete client holder l → Complete client w l') := by
  subst hl
  have hheld : forClient client ((batchOf (l.pool.writers holder)).map Queued.message) = [] := by
    refine h.held_eq_nil fun hlt => ?_
    by_cases hh : holder = w
    · rw [hh, hidle]
      exact List.forall_mem_nil _
    · exact hothers holder hlt hh
  refine h.rearrange rfl ?_ (.inl hw) fun v hv hne => ?_
  · rw [onTheWay, onTheWay, writtenFor, writtenFor, hheld, List.append_nil, ← hsplit, batchOf_update, if_pos rfl, batchOf,
      List.append_assoc]
  · rw [batchOf_update, if_neg hne]
    exact hothers v hv hne

theorem Kept.take_other (h : Kept count client holder l) (hw : w < count) (hidle : batchOf (l.pool.writers w) = [])
    (hnone : ∀ x ∈ batch, descriptorOf x.message.fd ≠ client)
    (hsplit : forClient client (queue.map Queued.message) = forClient client (l.pool.queue.map Queued.message))
    (hl : l' = { l with
      pool := { l.pool with queue := queue, writers := Function.update l.pool.writers w (.holding batch) } }) :
    Kept count client holder l' ∧ (Complete client holder l → Complete client holder l') := by
  subst hl
  refine h.rearrange rfl ?_ ?_ fun v hv hne => ?_
  · rw [onTheWay, onTheWay, writtenFor, writtenFor, hsplit, batchOf_update]
    split_ifs with hh
    · rw [hh, hidle, batchOf, forClient_batch_eq_nil hnone]
      rfl
    · rfl
  · rw [batchOf_update]
    split_ifs with hh
    · exact .inl (hh ▸ hw)
    · exact h.writer
  · rw [batchOf_update]
    split_ifs with hv'
    · exact hnone
    · exact h.alone v hv hne

end Taken

theorem Kept.take (h : Kept count client holder l) (ho : Orderly count bufferSize client l (.take w))
    (hs : lineStep createAcceptKey cfg count bufferSize l (.take w) = some l') :
    ∃ holder', Kept count client holder' l' ∧ (Complete client holder l → Complete client holder' l') := by
  obtain ⟨pool, hpool, rfl⟩ := Option.map_eq_some_iff.1 hs
  obtain ⟨hw, hidle, -, rfl⟩ := poolStep_take hpool
  have hempty : batchOf (l.pool.writers w) = [] := by
    rw [hidle]
    rfl
  by_cases hhas : ∃ x ∈ (pickUp Queued.message 0 0 bufferSize l.pool.queue).1, descriptorOf x.message.fd = client
  · obtain ⟨hothers, hone⟩ := ho hhas
    obtain ⟨x, hx, hclient⟩ := hhas
    have hmem := (pickUp_sublist Queued.message 0 0 bufferSize l.pool.queue).1.mem hx
    exact ⟨w, h.take_own hw hempty hothers (forClient_pickUp hone bufferSize ⟨x, hmem, hclient⟩) rfl⟩
  · have hnone : ∀ x ∈ (pickUp Queued.message 0 0 bufferSize l.pool.queue).1, descriptorOf x.message.fd ≠ client :=
      fun x hx hfd => hhas ⟨x, hx, hfd⟩
    exact ⟨holder, h.take_other hw hempty hnone (forClient_pickUp_other hnone) rfl⟩

theorem Kept.output (h : Kept count client holder l) (hw : w < count) {m : MessageWithFrameLen}
    (hm : m ∈ (batchOf (l.pool.writers w)).map Queued.message) (hfd : descriptorOf m.fd = client) : m ∈ l.reader.output := by
  by_cases hh : w = holder
  · subst hh
    have hway : m ∈ onTheWay client w l.pool :=
      List.mem_append_left _ (List.mem_append_right _ (mem_forClient.2 ⟨hm, hfd⟩))
    exact List.mem_of_mem_take (mem_forClient.1 (h.places.mem hway)).1
  · obtain ⟨x, hx, rfl⟩ := List.mem_map.1 hm
    exact absurd hfd (h.alone w hw hh x hx)

theorem copied_some {batch out : List Queued} {registered : List Bool}
    (h : fillBuffer Queued.message batch registered = some out) : copied batch registered = out.map Queued.message := by
  rw [copied, h]
  rfl

theorem Kept.onTheWay_release (h : Kept count client holder l) (hw : w < count) {new : Writer} (hnew : batchOf new = [])
    {sent : List (Fd × Queued)} {p : Pool}
    (hsent : (forClient client (sent.map fun e => e.2.message)).Sublist
      (forClient client ((batchOf (l.pool.writers w)).map Queued.message)))
    (hp : p = { l.pool with writers := Function.update l.pool.writers w new, written := l.pool.written ++ sent }) :
    writtenFor client p = writtenFor client l.pool ++ forClient client (sent.map fun e => e.2.message) ∧
    (onTheWay client holder p).Sublist (onTheWay client holder l.pool) ∧
    (forClient client (sent.map fun e => e.2.message) = forClient client ((batchOf (l.pool.writers w)).map Queued.message) →
      onTheWay client holder p = onTheWay client holder l.pool) := by
  subst hp
  have hwritten : writtenFor client { l.pool with
      writers := Function.update l.pool.writers w new, written := l.pool.written ++ sent } =
        writtenFor client l.pool ++ forClient client (sent.map fun e => e.2.message) := by
    rw [writtenFor, writtenFor, List.map_append, forClient_append]
  refine ⟨hwritten, ?_⟩
  rw [onTheWay, onTheWay, hwritten, batchOf_update]
  split_ifs with hh
  · have hgone : forClient client ((batchOf new).map Queued.message) = [] := by rw [hnew]; rfl
    rw [hh, hgone, List.append_nil]
    refine ⟨((List.Sublist.refl _).append hsent).append (.refl _), fun heq => ?_⟩
    rw [heq]
  · -- another writer has nothing of the client
    have hnone : forClient client ((batchOf (l.pool.writers w)).map Queued.message) = [] :=
      forClient_batch_eq_nil (h.alone w hw (Ne.symm hh))
    rw [hnone] at hsent ⊢
    rw [List.sublist_nil.1 hsent, List.append_nil]
    exact ⟨.refl _, fun _ => rfl⟩

theorem Kept.release (h : Kept count client holder l) (hw : w < count) {new : Writer} (hnew : batchOf new = [])
    {sent : List (Fd × Queued)} {streams : Fd → List UInt8} {dropped : Fd → Bool}
    (hsent : (forClient client (sent.map fun e => e.2.message)).Sublist
      (forClient client ((batchOf (l.pool.writers w)).map Queued.message)))
    (hstream : ∃ next rest, streams client =
        encodeAll wsOutputFilter (writtenFor client l.pool ++ forClient client (sent.map fun e => e.2.message)) ++ rest ∧
      Pending wsOutputFilter next rest ∧ (∀ m ∈ next, m ∈ forClient client l.reader.output) ∧
      (dropped client = false → rest = []))
    (hl : l' = { l with
      pool := { l.pool with writers := Function.update l.pool.writers w new, written := l.pool.written ++ sent }
      streams := streams
      dropped := dropped }) :
    Kept count client holder l' ∧ (forClient client (sent.map fun e => e.2.message) =
      forClient client ((batchOf (l.pool.writers w)).map Queued.message) →
        Complete client holder l → Complete client holder l') := by
  obtain ⟨hwritten, hway, hsame⟩ := h.onTheWay_release hw hnew hsent rfl
  subst hl
  refine ⟨⟨?_, fun v hv hne => ?_, hway.trans h.places, ?_⟩, fun heq hall => ?_⟩
  · rw [batchOf_update]
    split_ifs with hh
    · exact .inr hnew
    · exact h.writer
  · rw [batchOf_update]
    split_ifs with hv'
    · simp [hnew]
    · exact h.alone v hv hne
  · rw [hwritten]
    exact hstream
  · rw [Complete, hsame heq]
    exact hall

/-- A write hands over whole frames of its batch from the front, and the beginning of the next one. -/
theorem writeOut_sent {batch out : List Queued} {registered : List Bool}
    (hfill : fillBuffer Queued.message batch registered = some out)
    (answers : Socket) (clock : ℕ) :
    ∃ front back rest, (out.take (wholeFrames (copied batch registered) (writeOut batch registered answers clock).1.length)).map
        Queued.message = front ∧
      front.Sublist (batch.map Queued.message) ∧ (∀ m ∈ back, m ∈ batch.map Queued.message) ∧
        Pending wsOutputFilter back rest ∧
      (writeOut batch registered answers clock).1 = encodeAll wsOutputFilter front ++ rest ∧
      ((writeOut batch registered answers clock).2 = 0 → rest = [] ∧ (out = batch → front = batch.map Queued.message)) := by
  obtain ⟨front, back, rest, hcopied, hpending, hsent, hdone⟩ := writeOut_cases batch registered answers clock
  have hout : front ++ back = out.map Queued.message := by rw [← hcopied, copied_some hfill]
  have hsub : (front ++ back).Sublist (batch.map Queued.message) := hout ▸ (fillBuffer_sublist hfill).1.map _
  refine ⟨front, back, rest, ?_, (List.sublist_append_left _ _).trans hsub, fun m hm => hsub.mem (List.mem_append_right _ hm),
    hpending, hsent, fun hzero => ?_⟩
  · rw [hsent, hcopied, wholeFrames_eq hpending, List.map_take, ← hout, List.take_left]
  · obtain ⟨rfl, rfl⟩ := hdone hzero
    refine ⟨rfl, ?_⟩
    rintro rfl
    rw [← hout, List.append_nil]

section Written
variable {batch : List Queued} {sent : List (Fd × Queued)} {front : List MessageWithFrameLen} {rest : List UInt8} {closes : ℕ}

theorem Kept.write_own (h : Kept count client holder l) (hw : w < count) (hheld : batchOf (l.pool.writers w) = batch)
    (hid : ∀ m ∈ batch.map Queued.message, descriptorOf m.fd = client) (hup : l.dropped client = false)
    (hsent : sent.map (fun e => e.2.message) = front) (hfront : front.Sublist (batch.map Queued.message))
    {back : List MessageWithFrameLen} (hback : ∀ m ∈ back, m ∈ batch.map Queued.message)
    (hpending : Pending wsOutputFilter back rest)
    (hdone : closes = 0 → rest = [])
    (hl : l' = { l with
      pool := { l.pool with writers := Function.update l.pool.writers w .idle, written := l.pool.written ++ sent }
      streams := Function.update l.streams client
        (l.streams client ++ (encodeAll wsOutputFilter front ++ rest))
      dropped := if closes = 0 then l.dropped else Function.update l.dropped client true }) :
    Kept count client holder l' ∧ (front = batch.map Queued.message →
      Complete client holder l → Complete client holder l') := by
  have hfrontId : forClient client front = front := forClient_eq_self fun m hm => hid m (hfront.mem hm)
  have hout : ∀ m ∈ back, m ∈ forClient client l.reader.output := by
    intro m hm
    refine mem_forClient.2 ⟨h.output hw ?_ (hid m (hback m hm)), hid m (hback m hm)⟩
    rw [hheld]
    exact hback m hm
  obtain ⟨_, _, hstream, -, -, hclean⟩ := h.stream
  have hrelease := @Kept.release count holder w client l l' h hw .idle rfl sent _ _ ?_
    ⟨back, rest, ?_, hpending, hout, ?_⟩ hl
  · rwa [hsent, hheld, hfrontId, forClient_eq_self hid] at hrelease
  · rw [hsent, hheld, hfrontId, forClient_eq_self hid]
    exact hfront
  · rw [hsent, hfrontId, Function.update_self, hstream, hclean hup, List.append_nil, Reassembly.encodeAll_append,
      List.append_assoc]
  · intro hd
    split_ifs at hd with hzero
    · exact hdone hzero
    · simp at hd

theorem Kept.write_other {fd : Fd} (h : Kept count client holder l) (hw : w < count) (hheld : batchOf (l.pool.writers w) = batch)
    (hid : ∀ m ∈ batch.map Queued.message, descriptorOf m.fd = fd) (hne : client ≠ fd)
    (hsent : sent.map (fun e => e.2.message) = front) (hfront : front.Sublist (batch.map Queued.message))
    (hl : l' = { l with
      pool := { l.pool with writers := Function.update l.pool.writers w .idle, written := l.pool.written ++ sent }
      streams := Function.update l.streams fd
        (l.streams fd ++ (encodeAll wsOutputFilter front ++ rest))
      dropped := if closes = 0 then l.dropped else Function.update l.dropped fd true }) :
    Kept count client holder l' ∧ (Complete client holder l → Complete client holder l') := by
  have hother : ∀ m ∈ batch.map Queued.message, descriptorOf m.fd ≠ client := fun m hm hfd => hne (hfd.symm.trans (hid m hm))
  have hnothing : forClient client front = [] := forClient_eq_nil fun m hm => hother m (hfront.mem hm)
  have hsame : (if closes = 0 then l.dropped else Function.update l.dropped fd true) client =
      l.dropped client := by
    split_ifs
    · rfl
    · rw [Function.update_of_ne hne]
  obtain ⟨next, left, hstream, hwait, hnext, hclean⟩ := h.stream
  have hrelease := @Kept.release count holder w client l l' h hw .idle rfl sent _ _ ?_
    ⟨next, left, ?_, hwait, hnext, hsame ▸ hclean⟩ hl
  · rw [hsent, hheld, hnothing, forClient_eq_nil hother] at hrelease
    exact ⟨hrelease.1, hrelease.2 rfl⟩
  · rw [hsent, hnothing]
    exact List.nil_sublist _
  · rw [hsent, hnothing, List.append_nil, Function.update_of_ne hne]
    exact hstream

end Written

theorem Kept.write (h : Kept count client holder l) (hsrc : Sourced l) {registered : List Bool} {answers : Socket} {clock : ℕ}
    (ho : Orderly count bufferSize client l (.write w registered answers clock))
    (hs : lineStep createAcceptKey cfg count bufferSize l (.write w registered answers clock) = some l') :
    Kept count client holder l' ∧
      (Delivers client l (.write w registered answers clock) → Complete client holder l → Complete client holder l') := by
  obtain ⟨pool, hpool, hl⟩ := write_next hs
  obtain ⟨hw, batch, hbatch, hcases⟩ := poolStep_write hpool
  have hheld : batchOf (l.pool.writers w) = batch := by rw [hbatch]; rfl
  have hbatchHeld := hsrc.held w
  rw [Delivers, hheld]
  rw [Orderly, hheld] at ho
  rw [hheld] at hl hcases hbatchHeld
  -- the batch has no pill, and its frames are for the descriptor it is written to
  have hlive : ∀ x ∈ batch, isPoison Queued.message x = false := fun x hx =>
    isPoison_eq_false.2 (hbatchHeld x hx).1.not_poison
  have hid : ∀ m ∈ batch.map Queued.message, descriptorOf m.fd = sessionWithoutFlags (fdWithSession batch) := by
    intro m hm
    obtain ⟨x, hx, rfl⟩ := List.mem_map.1 hm
    obtain ⟨haddress, hfd⟩ := hbatchHeld x hx
    rw [← hfd, haddress.socket_eq]
  obtain ⟨out, hfill, -⟩ := @fillBuffer_live _ Queued.message batch registered hlive
  obtain ⟨hnone, -⟩ | ⟨out', hfill', rfl⟩ := hcases
  · rw [hfill] at hnone
    cases hnone
  obtain rfl := Option.some_inj.1 (hfill.symm.trans hfill')
  obtain ⟨front, back, rest, hfrom, hfront, hback, hpending, hsent, hdone⟩ := writeOut_sent hfill answers clock
  rw [hsent] at hfrom hl
  have hlist := (List.map_map (f := fun x => (targetFd Queued.message batch, x))
    (g := fun e : Fd × Queued => e.2.message)).trans hfrom
  by_cases hclient : client = sessionWithoutFlags (fdWithSession batch)
  · subst hclient
    obtain ⟨hkept, hcomplete⟩ := h.write_own hw hheld hid (ho rfl) hlist hfront hback hpending (fun hzero => (hdone hzero).1) hl
    refine ⟨hkept, fun hdel => hcomplete ((hdone (hdel.2 rfl)).2 ?_)⟩
    rcases List.eq_nil_or_concat batch with rfl | ⟨batch, x, rfl⟩
    · exact List.sublist_nil.1 (fillBuffer_sublist hfill).1
    · have hall := hdel.1 ⟨x, by simp, hid x.message (by simp)⟩
      exact Option.some_inj.1 (hfill.symm.trans hall)
  · obtain ⟨hkept, hcomplete⟩ := h.write_other hw hheld hid hclient hlist hfront hl
    exact ⟨hkept, fun _ => hcomplete⟩

/-- One step keeps what is known of the client. -/
theorem Kept.step (h : Kept count client holder l) (hsrc : Sourced l) (ho : Orderly count bufferSize client l e)
    (hs : lineStep createAcceptKey cfg count bufferSize l e = some l') :
    ∃ holder', Kept count client holder' l' ∧
      (Delivers client l e → Complete client holder l → Complete client holder' l') := by
  cases e with
  | serve c =>
    obtain ⟨hkept, hcomplete⟩ := h.serve hsrc hs
    exact ⟨holder, hkept, fun _ => hcomplete⟩
  | enqueue n =>
    obtain ⟨hkept, hcomplete⟩ := h.enqueue hs
    exact ⟨holder, hkept, fun _ => hcomplete⟩
  | take w =>
    obtain ⟨holder', hkept, hcomplete⟩ := h.take ho hs
    exact ⟨holder', hkept, fun _ => hcomplete⟩
  | write w registered answers clock => exact ⟨holder, h.write hsrc ho hs⟩

theorem kept_run (h : Run (Guarded (Orderly count bufferSize client) (Steps (lineStep createAcceptKey cfg count bufferSize)))
    lineStart events l) : Sourced l ∧ ∃ holder, Kept count client holder l := by
  refine h.invariant (I := fun l => Sourced l ∧ ∃ holder, Kept count client holder l) ⟨sourced_start, 0, kept_start⟩ ?_
  rintro l e l' ⟨hsrc, holder, hkept⟩ ⟨ho, hs⟩
  obtain ⟨holder', hkept', -⟩ := hkept.step hsrc ho hs
  exact ⟨hsrc.step ho hs, holder', hkept'⟩

theorem reader_run {cond : Line → Event → Prop} (h : Run (Guarded cond (Steps (lineStep createAcceptKey cfg count bufferSize)))
    lineStart events l) : Run (Steps (readerThread createAcceptKey cfg)) stompStart (calls events) l.reader := by
  have hstep : ∀ (l : Line) (e : Event) (l' : Line) (st : StompState), e ∈ events → l.reader = st →
      Guarded cond (Steps (lineStep createAcceptKey cfg count bufferSize)) l e l' →
      ∃ st', l'.reader = st' ∧ Run (Steps (readerThread createAcceptKey cfg)) st (callsOf e) st' := by
    rintro l e l' st - rfl ⟨-, hs⟩
    cases e with
    | serve c =>
      obtain ⟨reader, hround, rfl⟩ := Option.map_eq_some_iff.1 hs
      exact ⟨reader, rfl, .one hround⟩
    | enqueue n =>
      simp only [Steps, lineStep] at hs
      split_ifs at hs
      obtain rfl := Option.some_inj.1 hs
      exact ⟨l.reader, rfl, .nil _⟩
    | take w =>
      obtain ⟨pool, -, rfl⟩ := Option.map_eq_some_iff.1 hs
      exact ⟨l.reader, rfl, .nil _⟩
    | write w registered answers clock =>
      obtain ⟨pool, -, rfl⟩ := write_next hs
      exact ⟨l.reader, rfl, .nil _⟩
  obtain ⟨st, rfl, hrun⟩ := h.simulate (R := fun l st => l.reader = st) rfl hstep
  exact hrun

theorem forall₂_of_sublist {α β : Type*} {R : α → β → Prop} {xs xs' : List α} {ys : List β} (h : List.Forall₂ R xs ys)
    (hs : xs'.Sublist xs) : ∃ ys' : List β, ys'.Sublist ys ∧ List.Forall₂ R xs' ys' := by
  induction hs generalizing ys with
  | slnil => exact ⟨[], List.nil_sublist ys, .nil⟩
  | cons x _ ih =>
    obtain ⟨_, _, -, hrest, rfl⟩ := List.forall₂_cons_left_iff.1 h
    obtain ⟨ys', hsub, hall⟩ := ih hrest
    exact ⟨ys', hsub.cons _, hall⟩
  | cons_cons x _ ih =>
    obtain ⟨y, _, hxy, hrest, rfl⟩ := List.forall₂_cons_left_iff.1 h
    obtain ⟨ys', hsub, hall⟩ := ih hrest
    exact ⟨y :: ys', hsub.cons_cons y, .cons hxy hall⟩

theorem Kept.written_sublist (h : Kept count client holder l) :
    (writtenFor client l.pool).Sublist (forClient client l.reader.output) := by
  have hway : (writtenFor client l.pool).Sublist (onTheWay client holder l.pool) := by
    rw [onTheWay, List.append_assoc]
    exact List.sublist_append_left _ _
  exact (hway.trans h.places).trans ((List.take_sublist _ _).filter _)

/-- The client reads what is written of its client. -/
theorem Kept.client_reads (h : Kept count client holder l)
    (hproper : ∀ m ∈ l.reader.output, descriptorOf m.fd = client → Proper websocket m) :
    ∃ rest, clientReads websocket (l.streams client) =
        ((writtenFor client l.pool).map MessageWithFrameLen.content, rest) ∧ (l.dropped client = false → rest = []) := by
  obtain ⟨next, rest, hstream, hpending, hnext, hrest⟩ := h.stream
  refine ⟨rest, ?_, hrest⟩
  rw [hstream]
  refine (readable websocket).read_eq (fun m hm => ?_) hpending
  have hm' : m ∈ forClient client l.reader.output := by
    rcases List.mem_append.1 hm with hm | hm
    · exact h.written_sublist.mem hm
    · exact hnext m hm
  obtain ⟨hmem, hfd⟩ := mem_forClient.1 hm'
  exact hproper m hmem hfd

def Undisturbed (count bufferSize : ℕ) (client : Fd) (l : Line) (e : Event) : Prop :=
  Orderly count bufferSize client l e ∧ Delivers client l e

def Drained (count : ℕ) (client : Fd) (l : Line) : Prop :=
  l.enqueued = l.reader.output.length ∧ (∀ x ∈ l.pool.queue, descriptorOf x.message.fd ≠ client) ∧
    ∀ w < count, ∀ x ∈ batchOf (l.pool.writers w), descriptorOf x.message.fd ≠ client

theorem complete_run
    (h : Run (Guarded (Undisturbed count bufferSize client) (Steps (lineStep createAcceptKey cfg count bufferSize)))
      lineStart events l) : Sourced l ∧ ∃ holder, Kept count client holder l ∧ Complete client holder l := by
  refine h.invariant (I := fun l => Sourced l ∧ ∃ holder, Kept count client holder l ∧ Complete client holder l)
    ⟨sourced_start, 0, kept_start, complete_start⟩ ?_
  rintro l e l' ⟨hsrc, holder, hkept, hcomplete⟩ ⟨⟨ho, hdel⟩, hs⟩
  obtain ⟨holder', hkept', hcomplete'⟩ := hkept.step hsrc ho hs
  exact ⟨hsrc.step ho hs, holder', hkept', hcomplete' hdel hcomplete⟩

theorem not_dropped
    (h : Run (Guarded (Undisturbed count bufferSize client) (Steps (lineStep createAcceptKey cfg count bufferSize)))
      lineStart events l) : l.dropped client = false := by
  refine h.invariant (I := fun l => l.dropped client = false) rfl ?_
  rintro l e l' hup ⟨⟨-, hdel⟩, hs⟩
  cases e with
  | serve c =>
    obtain ⟨reader, -, rfl⟩ := Option.map_eq_some_iff.1 hs
    exact hup
  | enqueue n =>
    simp only [Steps, lineStep] at hs
    split_ifs at hs
    obtain rfl := Option.some_inj.1 hs
    exact hup
  | take w =>
    obtain ⟨pool, -, rfl⟩ := Option.map_eq_some_iff.1 hs
    exact hup
  | write w registered answers clock =>
    obtain ⟨pool, -, rfl⟩ := write_next hs
    dsimp only
    split_ifs with hzero
    · exact hup
    · rw [Function.update_of_ne fun heq => hzero (hdel.2 heq.symm)]
      exact hup

theorem Complete.writtenFor_eq (h : Complete client holder l) (hkept : Kept count client holder l)
    (hd : Drained count client l) : writtenFor client l.pool = forClient client l.reader.output := by
  obtain ⟨hall, hqueue, hbatch⟩ := hd
  have hheld : forClient client ((batchOf (l.pool.writers holder)).map Queued.message) = [] :=
    hkept.held_eq_nil (hbatch holder)
  have hwaiting : forClient client (l.pool.queue.map Queued.message) = [] := forClient_batch_eq_nil hqueue
  rw [Complete, onTheWay, hheld, hwaiting, List.append_nil, List.append_nil, hall, List.take_length] at h
  exact h

instance (l : Line) (e : Event) : Decidable (Orderly count bufferSize client l e) :=
  match e with
  | .serve c => inferInstanceAs (Decidable (Addressable c.input.fd))
  | .enqueue _ => inferInstanceAs (Decidable True)
  | .take w => inferInstanceAs (Decidable
      ((∃ x ∈ (tsDequeueMultipleMessagesForSameFd Queued.message l.pool.queue bufferSize).1,
        descriptorOf x.message.fd = client) →
        (∀ v < count, v ≠ w → ∀ x ∈ batchOf (l.pool.writers v), descriptorOf x.message.fd ≠ client) ∧
        ∀ x ∈ l.pool.queue, descriptorOf x.message.fd = client →
          ∀ y ∈ l.pool.queue, descriptorOf y.message.fd = client → x.message.fd = y.message.fd))
  | .write w _ _ _ => inferInstanceAs (Decidable
      (sessionWithoutFlags (fdWithSession (batchOf (l.pool.writers w))) = client → l.dropped client = false))

instance (l : Line) (e : Event) : Decidable (Delivers client l e) :=
  match e with
  | .serve _ | .enqueue _ | .take _ => inferInstanceAs (Decidable True)
  | .write w registered answers clock => inferInstanceAs (Decidable
      (((∃ x ∈ batchOf (l.pool.writers w), descriptorOf x.message.fd = client) →
      fillBuffer Queued.message (batchOf (l.pool.writers w)) registered = some (batchOf (l.pool.writers w))) ∧
      (sessionWithoutFlags (fdWithSession (batchOf (l.pool.writers w))) = client →
        (writeOut (batchOf (l.pool.writers w)) registered answers clock).2 = 0)))

instance (l : Line) (e : Event) : Decidable (Undisturbed count bufferSize client l e) := inferInstanceAs (Decidable (_ ∧ _))

/-- The calls of a subscriber; the writer takes the answer to the first one while the others are served. -/
def subscriberEvents : List Event :=
  (MessageIds.ownIdCalls.take 2).map .serve ++ [.enqueue 1, .take 0] ++ (MessageIds.ownIdCalls.drop 2).map .serve ++
    [.write 0 [true] eagerSocket 0, .enqueue 2, .take 0, .write 0 [true, true] eagerSocket 1]

def PlainFrames (client : Fd) (l : Line) : Prop := ∀ m ∈ l.reader.output, m.fd = client ∧ sessionIsEncoded m.fd = false ∧
  (0 : UInt8) ∉ m.content ∧ m.content.length + 11 < 2 ^ 31 ∧ strncasecmpEq m.content (lit "HTTP") 4 = false

instance (l : Line) : Decidable (PlainFrames client l) := inferInstanceAs (Decidable (∀ m ∈ l.reader.output, _))

instance (l : Line) : Decidable (Drained count client l) := inferInstanceAs (Decidable (_ ∧ _ ∧ _))

theorem exists_subscriber_run :
    ∃ l, Run (Guarded (Undisturbed 1 10000 9) (Steps (lineStep id DistributeContract.lateConfig 1 10000)))
      lineStart subscriberEvents l ∧ l.reader.output.length = 3 ∧ PlainFrames 9 l ∧ Drained 1 9 l :=
  exists_guarded_run_of_exec (by decide +kernel)

theorem PlainFrames.proper (h : PlainFrames client l) :
    ∀ m ∈ l.reader.output, descriptorOf m.fd = client → Proper false m := by
  intro m hm _
  obtain ⟨-, hkind, hnul, hshort, hplain⟩ := h m hm
  exact ⟨hnul, hshort, nofun, fun _ => ⟨hkind, hplain⟩⟩

end StompBroker.ClientView
