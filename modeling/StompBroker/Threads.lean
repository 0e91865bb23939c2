import StompBroker.ReaderThread
import StompBroker.WriterThread

/-! The threads of the broker as one transition system. Connections are numbered in the order of
`accept`, since the operating system hands a closed descriptor out again. Queued messages,
subscriptions and frames are listed with the connection they belong to; the code sees only the
messages, subscriptions and frames. -/
namespace StompBroker.Threads
open CString SessionStorage StompSession Message StompParser PubSub Distribute Stomp StompRun
open WsBuffer AcceptEpoll ReaderThread WriterThread TransitionSystem

abbrev Frame := ℕ × MessageWithFrameLen

/-- A writer between two batches, or in the loop over one: the messages not looked at yet, those
in the write buffer, and the socket of the last one looked at. -/
inductive Writer
  | idle
  | filling (pending buffered : List Frame) (fd : Fd)
  | ended

def Writer.frames : Writer → List Frame
  | .filling pending buffered _ => pending ++ buffered
  | _ => []

/-- `accepted` gives the descriptor of each connection and `sockets` the open connection of a
descriptor. `written` lists the frames that reached a socket, each behind the connection that had
the socket. -/
structure Broker where
  accepted : List Fd
  sockets : Fd → Option ℕ
  storage : Storage
  ws : Buffer
  input : List (ℕ × MessageWithTimestamp)
  stomp : StompState
  subscribers : List (ℕ × Subscription)
  output : List Frame
  writers : ℕ → Writer
  written : List (ℕ × Frame)

def brokerStart : Broker :=
  ⟨[], fun _ => none, sessionStorageInit, wsInitBuffer, [], stompStart, [], [], fun _ => .idle, []⟩

structure Setting where
  maxInputQueueSize : ℕ
  outputBufferSize : ℕ
  config : Config
  writersCount : ℕ
  createAcceptKey : CStr → CStr

/-- `accept` returns a free descriptor; `doUse` is an event of an open socket with what `recv`
returned; `process` is a round of the reader, with the connections its new frames are for; a
writer takes a batch, looks at the next message, writes from its buffer up to a byte of the frame
number `begun`, the first `finished` frames in full, or gives the connection up after failed
writes. A write from an empty buffer ends the batch. -/
inductive Event
  | accept (fd : Fd)
  | doUse (fd : Fd) (readBuffer : List UInt8) (receivedLength now : ℤ)
  | process (env : Environment) (owners : List ℕ)
  | take (w : ℕ)
  | check (w : ℕ)
  | write (w begun finished : ℕ)
  | giveUp (w : ℕ)

def Broker.server (b : Broker) : Server := ⟨b.storage, b.ws, b.input.map Prod.snd, []⟩

/-- The reader's state with the output queue, whose length it can report. -/
def Broker.reader (b : Broker) : StompState := { b.stomp with output := b.output.map Prod.snd }

def Broker.writer (cfg : Setting) (b : Broker) (w : ℕ) : Option Writer :=
  if w < cfg.writersCount then some (b.writers w) else none

def Broker.setWriter (b : Broker) (w : ℕ) (writer : Writer) : Broker :=
  { b with writers := Function.update b.writers w writer }

def closeAll (sockets : Fd → Option ℕ) (closed : List Fd) (fd : Fd) : Option ℕ :=
  if fd ∈ closed then none else sockets fd

/-- The subscription list with its connections: subscriptions only leave, or a new one of the
sender comes last. -/
def retag (sender : ℕ) (old : List (ℕ × Subscription)) (topics : Topics) :
    List (ℕ × Subscription) :=
  match topics.drop old.length with
  | sub :: _ => old ++ [(sender, sub)]
  | [] => old.filter fun p => p.2 ∈ topics

/-- A new frame is for the connection whose message is processed, as its answer or as a stale
message for its subscription, or for the connection of a subscription of the list. -/
def ProducedFor (sender : ℕ) (input : MessageWithTimestamp) (subscribers : List (ℕ × Subscription))
    (frame : Frame) : Prop :=
  (frame.1 = sender ∧ frame.2.fd = input.fd ∧
    (frame.2.isMessage = false ∨ parseCommand input.content = .subscribe)) ∨
  (frame.2.isMessage = true ∧ ∃ p ∈ subscribers, p.1 = frame.1 ∧ p.2.sessionId = frame.2.fd)

instance (sender : ℕ) (input : MessageWithTimestamp) (subscribers : List (ℕ × Subscription))
    (frame : Frame) : Decidable (ProducedFor sender input subscribers frame) :=
  inferInstanceAs (Decidable (_ ∨ _))

def brokerStep (cfg : Setting) (b : Broker) : Event → Option Broker
  | .accept fd =>
      if b.sockets fd = none ∧ fd.toInt > 0 then
        some { b with
          accepted := b.accepted ++ [fd]
          sockets := Function.update b.sockets fd (some b.accepted.length) }
      else none
  | .doUse fd readBuffer receivedLength now => do
      let conn ← b.sockets fd
      let srv ← doUseFd cfg.maxInputQueueSize now b.server fd readBuffer receivedLength
      return { b with
        sockets := closeAll b.sockets srv.closed
        storage := srv.storage
        ws := srv.ws
        input := b.input ++ (srv.inputQueue.drop b.input.length).map fun m => (conn, m) }
  | .process env owners =>
      match b.input with
      | [] => none
      | (sender, m) :: rest => do
          let st ← readerThread cfg.createAcceptKey cfg.config b.reader ⟨env, m⟩
          let frames := st.output.drop b.output.length
          if owners.length = frames.length ∧
              ∀ frame ∈ owners.zip frames, ProducedFor sender m b.subscribers frame then
            return { b with
              input := rest
              stomp := { st with output := [] }
              subscribers := retag sender b.subscribers st.topics
              output := b.output ++ owners.zip frames }
          else none
  | .take w =>
      match b.writer cfg w with
      | some .idle =>
          if b.output ≠ [] then
            let (batch, rest) := tsDequeueMultipleMessagesForSameFd Prod.snd b.output cfg.outputBufferSize
            some { b.setWriter w (.filling batch [] 0) with output := rest }
          else none
      | _ => none
  | .check w =>
      match b.writer cfg w with
      | some (.filling (x :: pending) buffered _) =>
          some (b.setWriter w (
            match look (sessionStorageGet b.storage (socket x.2) ≠ 0) x.2 with
            | .poisoned => .ended
            | .disconnected => .filling pending buffered (socket x.2)
            | .copied => .filling pending (buffered ++ [x]) (socket x.2)))
      | _ => none
  | .write w begun finished =>
      match b.writer cfg w with
      | some (.filling [] [] _) => some (b.setWriter w .idle)
      | some (.filling [] buffered fd) =>
          if finished ≤ begun then do
            let conn ← b.sockets fd
            return { b.setWriter w (.filling [] (buffered.drop finished) fd) with
              written := b.written ++ (buffered.take begun).map fun x => (conn, x) }
          else none
      | _ => none
  | .giveUp w =>
      match b.writer cfg w with
      | some (.filling [] (_ :: _) fd) =>
          let srv := wCloseConnection b.server fd
          some { b.setWriter w .idle with
            sockets := closeAll b.sockets srv.closed
            storage := srv.storage
            ws := srv.ws
            input := (srv.inputQueue.take 1).map (fun m => (0, m)) ++ b.input }
      | _ => none

/-- No frame reaches another connection than the one it was produced for on the same
descriptor. -/
def NoCrossDelivery (b : Broker) : Prop :=
  ∀ e ∈ b.written, b.accepted[e.1]? = b.accepted[e.2.1]? → e.1 = e.2.1

instance (b : Broker) : Decidable (NoCrossDelivery b) :=
  inferInstanceAs (Decidable (∀ e ∈ b.written, _ → _))

def carries (fd id : Fd) : Bool := id == fd || id == sessionSetEncoded fd

/-- Nothing under an id of the descriptor is queued, subscribed or held by a writer. -/
def Quiet (writersCount : ℕ) (b : Broker) (fd : Fd) : Prop :=
  (∀ p ∈ b.input, carries fd p.2.fd = false) ∧
  (∀ p ∈ b.subscribers, carries fd p.2.sessionId = false) ∧
  (∀ p ∈ b.output, carries fd p.2.fd = false) ∧
  ∀ w < writersCount, ∀ p ∈ (b.writers w).frames, carries fd p.2.fd = false

def QuietAccept (writersCount : ℕ) (b : Broker) : Event → Prop
  | .accept fd => Quiet writersCount b fd
  | _ => True

instance (writersCount : ℕ) (b : Broker) (e : Event) : Decidable (QuietAccept writersCount b e) :=
  match e with
  | .accept _ => inferInstanceAs (Decidable (_ ∧ _ ∧ _ ∧ _))
  | .doUse .. | .process .. | .take .. | .check .. | .write .. | .giveUp .. =>
      inferInstanceAs (Decidable True)

theorem topics_cases {st : StompState} {m : MessageWithTimestamp} {topics : Topics}
    {connected : SessionConnected} (h : SessionChange st m topics connected) :
    (∃ q : Subscription → Bool, topics = st.topics.filter q) ∨
      ∃ sub : Subscription, topics = st.topics ++ [sub] ∧ sub.sessionId = m.fd := by
  cases h with
  | keep => exact .inl ⟨fun _ => true, by simp⟩
  | purge => exact .inl ⟨_, rfl⟩
  | connect => exact .inl ⟨fun _ => true, by simp⟩
  | disconnect => exact .inl ⟨_, rfl⟩
  | subscribe topic id => exact .inr ⟨_, rfl, rfl⟩
  | unsubscribe topic id => exact .inl ⟨_, rfl⟩

theorem retag_filter {old : List (ℕ × Subscription)} {topics : Topics} (sender : ℕ)
    (hold : old.map Prod.snd = topics) (q : Subscription → Bool) :
    retag sender old (topics.filter q) = old.filter fun p => q p.2 := by
  have hdrop : (topics.filter q).drop old.length = [] := by
    rw [List.drop_eq_nil_iff, ← List.length_map Prod.snd, hold]
    exact List.length_filter_le q topics
  simp only [retag, hdrop]
  apply List.filter_congr
  intro p hp
  have hmem : p.2 ∈ topics := hold ▸ List.mem_map_of_mem hp
  simp [List.mem_filter, hmem]

theorem retag_append {old : List (ℕ × Subscription)} {topics : Topics} (sender : ℕ)
    (hold : old.map Prod.snd = topics) (sub : Subscription) :
    retag sender old (topics ++ [sub]) = old ++ [(sender, sub)] := by
  have hdrop : (topics ++ [sub]).drop old.length = [sub] := by
    rw [← List.length_map Prod.snd, hold, List.drop_left]
  simp only [retag, hdrop]

/-- The connections follow their subscriptions. -/
theorem retag_spec {st : StompState} {m : MessageWithTimestamp} {topics : Topics}
    {connected : SessionConnected} {old : List (ℕ × Subscription)} (sender : ℕ)
    (h : SessionChange st m topics connected) (hold : old.map Prod.snd = st.topics) :
    (retag sender old topics).map Prod.snd = topics ∧
      ∀ p ∈ retag sender old topics, p ∈ old ∨ p.1 = sender ∧ p.2.sessionId = m.fd := by
  rcases topics_cases h with ⟨q, rfl⟩ | ⟨sub, rfl, hsub⟩
  · rw [retag_filter sender hold]
    refine ⟨?_, fun p hp => .inl (List.mem_filter.mp hp).1⟩
    rw [← hold, List.filter_map]
    rfl
  · rw [retag_append sender hold]
    refine ⟨by simp [hold], fun p hp => ?_⟩
    rcases List.mem_append.mp hp with hp | hp
    · exact .inl hp
    · rw [List.mem_singleton.mp hp]
      exact .inr ⟨rfl, hsub⟩

def InFlight (writersCount : ℕ) (b : Broker) (p : Frame) : Prop :=
  p ∈ b.output ∨ ∃ w < writersCount, p ∈ (b.writers w).frames

/-- An id of a connection's descriptor, while no other connection has the descriptor. -/
def Fresh (b : Broker) (conn : ℕ) (id : Fd) : Prop :=
  ∃ fd, b.accepted[conn]? = some fd ∧ carries fd id = true ∧ ∀ d, b.sockets fd = some d → d = conn

/-- The message of a teardown, which makes no frame and no subscription. -/
def IsTeardown (m : MessageWithTimestamp) : Prop :=
  (∃ id, m.fd = sessionSetCmdPurge id) ∧ m.content = lit "CMD"

/-- What a write to the right connection rests on: whatever is queued, subscribed or in flight
carries an id that only its own connection has. -/
structure Traced (writersCount : ℕ) (b : Broker) : Prop where
  opened : ∀ fd d, b.sockets fd = some d → b.accepted[d]? = some fd
  input : ∀ p ∈ b.input, IsTeardown p.2 ∨ Fresh b p.1 p.2.fd
  subscribers : ∀ p ∈ b.subscribers, Fresh b p.1 p.2.sessionId
  frames : ∀ p, InFlight writersCount b p → Fresh b p.1 p.2.fd
  topics : b.subscribers.map Prod.snd = b.stomp.topics
  written : ∀ e ∈ b.written, ∃ n m, b.accepted[e.1]? = some n ∧ b.accepted[e.2.1]? = some m ∧
    (n = m → e.1 = e.2.1)

theorem traced_start (writersCount : ℕ) : Traced writersCount brokerStart := by
  constructor <;> simp [brokerStart, InFlight, Writer.frames, stompStart, pubsubInit]

theorem Traced.noCrossDelivery {writersCount : ℕ} {b : Broker} (h : Traced writersCount b) :
    NoCrossDelivery b := by
  intro e he heq
  obtain ⟨n, m, hn, hm, hnm⟩ := h.written e he
  rw [hn, hm] at heq
  exact hnm (Option.some.inj heq)

theorem closeAll_eq_some {sockets : Fd → Option ℕ} {closed : List Fd} {fd : Fd} {d : ℕ}
    (h : closeAll sockets closed fd = some d) : sockets fd = some d := by
  unfold closeAll at h
  split_ifs at h
  exact h

theorem writer_eq_some {cfg : Setting} {b : Broker} {w : ℕ} {writer : Writer}
    (h : b.writer cfg w = some writer) : w < cfg.writersCount ∧ b.writers w = writer := by
  unfold Broker.writer at h
  split_ifs at h with hw
  exact ⟨hw, Option.some.inj h⟩

theorem mem_frames_setWriter {b : Broker} {w v : ℕ} {writer : Writer} {p : Frame}
    (h : p ∈ ((b.setWriter w writer).writers v).frames) :
    p ∈ writer.frames ∨ p ∈ (b.writers v).frames := by
  by_cases hv : v = w
  · subst hv
    simp only [Broker.setWriter, Function.update_self] at h
    exact .inl h
  · simp only [Broker.setWriter, Function.update_of_ne hv] at h
    exact .inr h

section Steps
variable {cfg : Setting} {b b' : Broker}

structure Keeps (b b' : Broker) : Prop where
  accepted : b'.accepted = b.accepted
  sockets : ∀ fd d, b'.sockets fd = some d → b.sockets fd = some d

theorem Fresh.keep {conn : ℕ} {id : Fd} (h : Fresh b conn id) (hk : Keeps b b') :
    Fresh b' conn id := by
  obtain ⟨fd, ha, hc, hd⟩ := h
  exact ⟨fd, hk.accepted ▸ ha, hc, fun d hs => hd d (hk.sockets fd d hs)⟩

/-- After such a step it is enough to look at the new state with the old descriptors. -/
theorem Traced.keep {writersCount : ℕ} (h : Traced writersCount b) (hk : Keeps b b')
    (hinput : ∀ p ∈ b'.input, p ∈ b.input ∨ IsTeardown p.2 ∨ Fresh b p.1 p.2.fd)
    (hsubs : ∀ p ∈ b'.subscribers, p ∈ b.subscribers ∨ Fresh b p.1 p.2.sessionId)
    (hframes : ∀ p, InFlight writersCount b' p → InFlight writersCount b p ∨ Fresh b p.1 p.2.fd)
    (htopics : b'.subscribers.map Prod.snd = b'.stomp.topics)
    (hwritten : ∀ e ∈ b'.written, e ∈ b.written ∨
      ∃ fd, b.sockets fd = some e.1 ∧ InFlight writersCount b e.2) :
    Traced writersCount b' where
  opened fd d hs := hk.accepted ▸ h.opened fd d (hk.sockets fd d hs)
  input p hp := by
    rcases hinput p hp with hp | hp | hp
    · exact (h.input p hp).imp_right fun hf => hf.keep hk
    · exact .inl hp
    · exact .inr (hp.keep hk)
  subscribers p hp := by
    rcases hsubs p hp with hp | hp
    · exact (h.subscribers p hp).keep hk
    · exact hp.keep hk
  frames p hp := by
    rcases hframes p hp with hp | hp
    · exact (h.frames p hp).keep hk
    · exact hp.keep hk
  topics := htopics
  written e he := by
    rw [hk.accepted]
    rcases hwritten e he with he | ⟨fd, hs, hp⟩
    · exact h.written e he
    · -- the socket is that of another descriptor or of the frame's own connection
      obtain ⟨g, ha, -, hd⟩ := h.frames e.2 hp
      refine ⟨fd, g, h.opened fd e.1 hs, ha, ?_⟩
      rintro rfl
      exact hd e.1 hs

/-- A descriptor that is quiet has no fresh id, so handing it out takes no id away. -/
theorem Fresh.accept {conn : ℕ} {id fd : Fd} (h : Fresh b conn id) (hc : carries fd id = false) :
    Fresh { b with
      accepted := b.accepted ++ [fd]
      sockets := Function.update b.sockets fd (some b.accepted.length) } conn id := by
  obtain ⟨g, ha, hg, hd⟩ := h
  have hne : g ≠ fd := by
    rintro rfl
    rw [hg] at hc
    cases hc
  refine ⟨g, ?_, hg, ?_⟩
  · rw [List.getElem?_append_left (List.getElem?_eq_some_iff.mp ha).1]
    exact ha
  · intro d hs
    simp only [Function.update_of_ne hne] at hs
    exact hd d hs

theorem Traced.accept {fd : Fd} (h : Traced cfg.writersCount b)
    (hq : Quiet cfg.writersCount b fd) (hs : brokerStep cfg b (.accept fd) = some b') :
    Traced cfg.writersCount b' := by
  obtain ⟨hinput, hsubs, hout, hheld⟩ := hq
  simp only [brokerStep] at hs
  split_ifs at hs with hfree
  cases hs
  have known : ∀ {d : ℕ} {g : Fd}, b.accepted[d]? = some g → (b.accepted ++ [fd])[d]? = some g := by
    intro d g hd
    rw [List.getElem?_append_left (List.getElem?_eq_some_iff.mp hd).1]
    exact hd
  refine ⟨?_, ?_, ?_, ?_, h.topics, ?_⟩
  · intro g d hs
    by_cases hg : g = fd
    · subst hg
      simp only [Function.update_self, Option.some.injEq] at hs
      subst hs
      simp
    · simp only [Function.update_of_ne hg] at hs
      exact known (h.opened g d hs)
  · exact fun p hp => (h.input p hp).imp_right fun hf => hf.accept (hinput p hp)
  · exact fun p hp => (h.subscribers p hp).accept (hsubs p hp)
  · intro p hp
    refine (h.frames p hp).accept ?_
    rcases hp with hp | ⟨w, hw, hp⟩
    · exact hout p hp
    · exact hheld w hw p hp
  · intro e he
    obtain ⟨n, m, hn, hm, hnm⟩ := h.written e he
    exact ⟨n, m, known hn, known hm, hnm⟩

theorem Traced.doUse {fd : Fd} {readBuffer : List UInt8} {receivedLength now : ℤ}
    (h : Traced cfg.writersCount b)
    (hs : brokerStep cfg b (.doUse fd readBuffer receivedLength now) = some b') :
    Traced cfg.writersCount b' := by
  obtain ⟨conn, hconn, hs⟩ := Option.bind_eq_some_iff.mp hs
  obtain ⟨srv, hsrv, hs⟩ := Option.bind_eq_some_iff.mp hs
  cases hs
  obtain ⟨new, hq, hnew⟩ := doUseFd_append hsrv
  have hdrop : srv.inputQueue.drop b.input.length = new := by
    rw [hq, Broker.server, ← List.length_map Prod.snd, List.drop_left]
  have hfresh : ∀ id, carries fd id = true → Fresh b conn id := fun id hc =>
    ⟨fd, h.opened fd conn hconn, hc, fun d hd => Option.some.inj (hd.symm.trans hconn)⟩
  refine h.keep ⟨rfl, fun g d hs => closeAll_eq_some hs⟩ ?_ (fun p => .inl) (fun p => .inl)
    h.topics (fun e => .inl)
  intro p hp
  rcases List.mem_append.mp hp with hp | hp
  · exact .inl hp
  · right
    rw [hdrop] at hp
    obtain ⟨m, hm, rfl⟩ := List.mem_map.mp hp
    rcases hnew m hm with hfd | hfd | hpurge
    · exact .inr (hfresh _ (by simp [carries, hfd]))
    · exact .inr (hfresh _ (by simp [carries, hfd]))
    · exact .inl hpurge

theorem readerThread_teardown {createAcceptKey : CStr → CStr} {config : Config}
    {st st' : StompState} {c : Call} (hm : IsTeardown c.input)
    (h : readerThread createAcceptKey config st c = some st') :
    st'.output = st.output ∧ ∃ q : Subscription → Bool, st'.topics = st.topics.filter q := by
  obtain ⟨⟨id, hid⟩, hcmd⟩ := hm
  have hne : c.input.fd ≠ poisonFd := by
    intro he
    simp [readerThread, he] at h
  have hp : isPurge c.input.fd = true := by
    rw [hid]
    exact isPurge_setCmdPurge id
  rw [readerThread_purge createAcceptKey config st hcmd hp hne] at h
  cases h
  exact ⟨rfl, _, rfl⟩

theorem Traced.process {env : Environment} {owners : List ℕ} (h : Traced cfg.writersCount b)
    (hs : brokerStep cfg b (.process env owners) = some b') : Traced cfg.writersCount b' := by
  simp only [brokerStep] at hs
  split at hs
  · cases hs
  rename_i sender m rest hin
  obtain ⟨st, hround, hs⟩ := Option.bind_eq_some_iff.mp hs
  split_ifs at hs with howners
  cases hs
  have hhead := h.input (sender, m) (by rw [hin]; exact List.mem_cons_self)
  have hold : b.subscribers.map Prod.snd = b.reader.topics := h.topics
  obtain ⟨htopics, hsubs⟩ := retag_spec sender (readerThread_spec hround).1 hold
  refine h.keep ⟨rfl, fun _ _ hs => hs⟩ ?_ ?_ ?_ htopics (fun e => .inl)
  · intro p hp
    left
    rw [hin]
    exact List.mem_cons_of_mem _ hp
  · intro p hp
    rcases hhead with hdown | hfresh
    · obtain ⟨-, q, hq⟩ := readerThread_teardown hdown hround
      simp only [hq] at hp
      rw [retag_filter sender hold] at hp
      exact .inl (List.mem_filter.mp hp).1
    · refine (hsubs p hp).imp_right ?_
      rintro ⟨rfl, hid⟩
      rw [hid]
      exact hfresh
  · intro p hp
    rcases hp with hp | hp
    · rcases List.mem_append.mp hp with hp | hp
      · exact .inl (.inl hp)
      · right
        rcases hhead with hdown | hfresh
        · have hnone : st.output.drop b.output.length = [] := by
            rw [(readerThread_teardown hdown hround).1]
            simp [Broker.reader]
          simp [hnone] at hp
        · rcases howners.2 p hp with ⟨hsender, hfd, -⟩ | ⟨-, o, ho, hconn, hid⟩
          · rw [hsender, hfd]
            exact hfresh
          · rw [← hconn, ← hid]
            exact h.subscribers o ho
    · exact .inl (.inr hp)

theorem Traced.take {w : ℕ} (h : Traced cfg.writersCount b)
    (hs : brokerStep cfg b (.take w) = some b') : Traced cfg.writersCount b' := by
  simp only [brokerStep] at hs
  split at hs
  swap
  · cases hs
  rename_i hw
  split_ifs at hs
  cases hs
  obtain ⟨hbatch, hrest⟩ := pickUp_sublist Prod.snd 0 0 cfg.outputBufferSize b.output
  refine h.keep ⟨rfl, fun _ _ hs => hs⟩ (fun p => .inl) (fun p => .inl) ?_ h.topics (fun e => .inl)
  rintro p (hp | ⟨v, hv, hp⟩)
  · exact .inl (.inl (hrest.mem hp))
  · rcases mem_frames_setWriter hp with hp | hp
    · rw [Writer.frames, List.append_nil] at hp
      exact .inl (.inl (hbatch.mem hp))
    · exact .inl (.inr ⟨v, hv, hp⟩)

theorem inFlight_setWriter {writersCount w : ℕ} {writer : Writer} (hw : w < writersCount)
    (hsub : ∀ p ∈ writer.frames, p ∈ (b.writers w).frames) {p : Frame}
    (hp : InFlight writersCount (b.setWriter w writer) p) : InFlight writersCount b p := by
  rcases hp with hp | ⟨v, hv, hp⟩
  · exact .inl hp
  · rcases mem_frames_setWriter hp with hp | hp
    · exact .inr ⟨w, hw, hsub p hp⟩
    · exact .inr ⟨v, hv, hp⟩

theorem Traced.check {w : ℕ} (h : Traced cfg.writersCount b)
    (hs : brokerStep cfg b (.check w) = some b') : Traced cfg.writersCount b' := by
  simp only [brokerStep] at hs
  split at hs
  swap
  · cases hs
  rename_i x pending buffered fd hw
  cases hs
  obtain ⟨hlt, hwriter⟩ := writer_eq_some hw
  refine h.keep ⟨rfl, fun _ _ hs => hs⟩ (fun p => .inl) (fun p => .inl) (fun p hp => .inl ?_)
    h.topics (fun e => .inl)
  refine inFlight_setWriter hlt (fun q hq => ?_) hp
  rw [hwriter]
  revert hq
  cases look (sessionStorageGet b.storage (socket x.2) ≠ 0) x.2 <;> simp [Writer.frames] <;> tauto

theorem Traced.write {w begun finished : ℕ} (h : Traced cfg.writersCount b)
    (hs : brokerStep cfg b (.write w begun finished) = some b') : Traced cfg.writersCount b' := by
  simp only [brokerStep] at hs
  split at hs
  · rename_i fd hw
    cases hs
    obtain ⟨hlt, -⟩ := writer_eq_some hw
    exact h.keep ⟨rfl, fun _ _ hs => hs⟩ (fun p => .inl) (fun p => .inl)
      (fun p hp => .inl (inFlight_setWriter hlt (by simp [Writer.frames]) hp)) h.topics
      (fun e => .inl)
  · rename_i buffered fd hne hw
    split_ifs at hs
    obtain ⟨conn, hconn, hs⟩ := Option.bind_eq_some_iff.mp hs
    cases hs
    obtain ⟨hlt, hwriter⟩ := writer_eq_some hw
    refine h.keep ⟨rfl, fun _ _ hs => hs⟩ (fun p => .inl) (fun p => .inl) (fun p hp => .inl ?_)
      h.topics ?_
    · refine inFlight_setWriter hlt (fun q hq => ?_) hp
      rw [hwriter]
      exact List.mem_of_mem_drop hq
    · intro e he
      rcases List.mem_append.mp he with he | he
      · exact .inl he
      · obtain ⟨x, hx, rfl⟩ := List.mem_map.mp he
        refine .inr ⟨fd, hconn, .inr ⟨w, hlt, ?_⟩⟩
        rw [hwriter]
        exact List.mem_of_mem_take hx
  · cases hs

theorem Traced.giveUp {w : ℕ} (h : Traced cfg.writersCount b)
    (hs : brokerStep cfg b (.giveUp w) = some b') : Traced cfg.writersCount b' := by
  simp only [brokerStep] at hs
  split at hs
  swap
  · cases hs
  rename_i x buffered fd hw
  cases hs
  obtain ⟨hlt, -⟩ := writer_eq_some hw
  refine h.keep ⟨rfl, fun g d hs => closeAll_eq_some hs⟩ ?_ (fun p => .inl)
    (fun p hp => .inl (inFlight_setWriter hlt (by simp [Writer.frames]) hp)) h.topics (fun e => .inl)
  intro p hp
  rcases List.mem_append.mp hp with hp | hp
  · rw [wCloseConnection_inputQueue] at hp
    simp only [List.take_succ_cons, List.take_zero, List.map_cons, List.map_nil,
      List.mem_singleton] at hp
    rw [hp]
    exact .inr (.inl ⟨⟨fd, rfl⟩, rfl⟩)
  · exact .inl hp

theorem Traced.step {e : Event} (h : Traced cfg.writersCount b)
    (hq : QuietAccept cfg.writersCount b e) (hs : brokerStep cfg b e = some b') :
    Traced cfg.writersCount b' := by
  cases e with
  | accept fd => exact h.accept hq hs
  | doUse fd readBuffer receivedLength now => exact h.doUse hs
  | process env owners => exact h.process hs
  | take w => exact h.take hs
  | check w => exact h.check hs
  | write w begun finished => exact h.write hs
  | giveUp w => exact h.giveUp hs

end Steps

/-- Frames that all have an owner can be listed with their owners. -/
theorem exists_owners {P : Frame → Prop} {frames : List MessageWithFrameLen}
    (h : ∀ frame ∈ frames, ∃ conn, P (conn, frame)) :
    ∃ owners : List ℕ, owners.length = frames.length ∧ ∀ p ∈ owners.zip frames, P p := by
  induction frames with
  | nil => exact ⟨[], rfl, by simp⟩
  | cons frame frames ih =>
    obtain ⟨conn, hconn⟩ := h frame (by simp)
    obtain ⟨owners, hlen, howners⟩ := ih fun f hf => h f (by simp [hf])
    refine ⟨conn :: owners, by simp [hlen], ?_⟩
    rw [List.zip_cons_cons]
    exact List.forall_mem_cons.mpr ⟨hconn, howners⟩

theorem exists_process {cfg : Setting} {b : Broker} {sender : ℕ} {m : MessageWithTimestamp}
    {rest : List (ℕ × MessageWithTimestamp)} {env : Environment} {st : StompState}
    (htopics : b.subscribers.map Prod.snd = b.stomp.topics) (hin : b.input = (sender, m) :: rest)
    (hround : readerThread cfg.createAcceptKey cfg.config b.reader ⟨env, m⟩ = some st) :
    ∃ owners b', brokerStep cfg b (.process env owners) = some b' ∧
      b'.output.map Prod.snd = st.output := by
  obtain ⟨-, frames, hout, horigin⟩ := readerThread_spec hround
  have hdrop : st.output.drop b.output.length = frames := by
    rw [hout, Broker.reader, ← List.length_map Prod.snd, List.drop_left]
  have hproduced : ∀ frame ∈ frames, ∃ conn, ProducedFor sender m b.subscribers (conn, frame) := by
    intro frame hf
    cases horigin frame hf with
    | reply hm hfd => exact ⟨sender, .inl ⟨rfl, hfd, .inl hm⟩⟩
    | stale _ hc _ _ hfd => exact ⟨sender, .inl ⟨rfl, hfd, .inr hc⟩⟩
    | message sub hs _ _ hm hfd =>
      have hsub : sub ∈ b.subscribers.map Prod.snd := htopics ▸ hs
      obtain ⟨p, hp, rfl⟩ := List.mem_map.mp hsub
      exact ⟨p.1, .inr ⟨hm, p, hp, rfl, hfd.symm⟩⟩
  obtain ⟨owners, hlen, howners⟩ := exists_owners hproduced
  have hstep : brokerStep cfg b (.process env owners) = some { b with
      input := rest
      stomp := { st with output := [] }
      subscribers := retag sender b.subscribers st.topics
      output := b.output ++ owners.zip frames } := by
    simp only [brokerStep, hin, hround, Option.bind_eq_bind, Option.bind_some, hdrop]
    rw [if_pos ⟨hlen, howners⟩]
    rfl
  refine ⟨owners, _, hstep, ?_⟩
  rw [hout, List.map_append, List.map_snd_zip (by omega)]
  rfl

/-- In a run that hands every descriptor out quiet, no frame reaches a later connection of its
descriptor. -/
theorem noCrossDelivery_of_quiet (cfg : Setting) {events : List Event} {b : Broker}
    (h : Run (Guarded (QuietAccept cfg.writersCount) (Steps (brokerStep cfg))) brokerStart events b) :
    NoCrossDelivery b := by
  have htraced : Traced cfg.writersCount b :=
    h.invariant (traced_start cfg.writersCount) fun _ _ _ ht hs => ht.step hs.1 hs.2
  exact htraced.noCrossDelivery

def oneWriter : Setting := ⟨10, 10000, ⟨0, 0⟩, 1, id⟩

/-- What `recv` returns for a CONNECT frame. -/
def connectFrame (fd : Fd) : Event := .doUse fd (lit "CONNECT\n\n" ++ [0]) 10 0

/-- Descriptor 5 is given to a second connection after the first is answered and purged. -/
def quietReuse : List Event :=
  [.accept 5, connectFrame 5, .process (quietEnvironment 0) [0],
    .take 0, .check 0, .write 0 1 1, .write 0 0 0,
    .doUse 5 [] 0 0, .process (quietEnvironment 0) [],
    .accept 5, connectFrame 5, .process (quietEnvironment 0) [1],
    .take 0, .check 0, .write 0 1 1]

theorem noCrossDelivery_quietReuse :
    ∃ b, Run (Guarded (QuietAccept 1) (Steps (brokerStep oneWriter))) brokerStart quietReuse b ∧
      NoCrossDelivery b ∧ b.written.map (fun e => (e.1, e.2.1)) = [(0, 0), (1, 1)] := by
  obtain ⟨b, hrun, hw⟩ : ∃ b, Run (Guarded (QuietAccept 1) (Steps (brokerStep oneWriter)))
      brokerStart quietReuse b ∧ b.written.map (fun e => (e.1, e.2.1)) = [(0, 0), (1, 1)] :=
    exists_guarded_run_of_exec (by decide +kernel)
  exact ⟨b, hrun, noCrossDelivery_of_quiet oneWriter hrun, hw⟩

/-- The first connection closes before a writer takes its CONNECTED frame, and the writer finds
the descriptor registered by the second. -/
def earlyReuse : List Event :=
  [.accept 5, connectFrame 5, .process (quietEnvironment 0) [0], .doUse 5 [] 0 0,
    .accept 5, connectFrame 5, .take 0, .check 0, .write 0 1 1]

theorem earlyReuse_crossDelivery :
    ∃ b, Run (Steps (brokerStep oneWriter)) brokerStart earlyReuse b ∧ ¬ NoCrossDelivery b :=
  exists_run_of_exec (P := fun b => ¬ NoCrossDelivery b) (by decide +kernel)

end StompBroker.Threads
