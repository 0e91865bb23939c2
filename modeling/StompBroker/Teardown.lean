import StompBroker.ReaderThread

/-! What a closed connection leaves behind in the STOMP processor, on the way through the epoll
thread and on the way through a writer. -/
namespace StompBroker.Teardown
open CString SessionStorage StompSession Message PubSub Distribute Stomp StompRun TransitionSystem
open AcceptEpoll ReaderThread

/-- A descriptor in the session table, with or without the encoded flag. -/
structure Registered (srv : Server) (fd : Fd) : Prop where
  ne_zero : fd ≠ 0
  admitted : fd.toNat ≤ maxNumberOfConnections
  stored : sessionStorageGet srv.storage fd = fd ∨
    sessionStorageGet srv.storage fd = sessionSetEncoded fd

def Clean (fd : Fd) (st : StompState) : Prop :=
  stompSessionIsConnected st.connected fd = false ∧ ∀ sub ∈ st.topics, ownedBy fd sub = false

def OneId (fd id : Fd) (st : StompState) : Prop :=
  ∀ sub ∈ st.topics, ownedBy fd sub = true → sub.sessionId = id

theorem Registered.plain {srv : Server} {fd : Fd} (h : Registered srv fd) : Plain fd :=
  plain_of_admitted h.admitted

theorem Registered.stored_ne_zero {srv : Server} {fd : Fd} (h : Registered srv fd) :
    sessionStorageGet srv.storage fd ≠ 0 := by
  rcases h.stored with hs | hs
  · rw [hs]
    exact h.ne_zero
  · rw [hs]
    intro h0
    have := sessionIsEncoded_setEncoded fd
    rw [h0] at this
    simp [sessionIsEncoded] at this

theorem setCmdPurge_ne_poison {fd id : Fd} (h : Plain fd) (hid : id = fd ∨ id = sessionSetEncoded fd) :
    sessionSetCmdPurge id ≠ poisonFd := by
  have hfd : fd &&& 0x400000#32 = 0#32 := BitFlags.and_eq_zero_of_lt h (by decide)
  have hs : sessionSetCmdPurge id &&& 0x400000#32 = 0#32 := by
    rw [sessionSetCmdPurge, BitFlags.or_and_of_apart (by decide)]
    rcases hid with rfl | rfl
    · exact hfd
    · rw [sessionSetEncoded, BitFlags.or_and_of_apart (by decide), hfd]
  intro he
  rw [he] at hs
  exact absurd hs (by decide)

theorem OneId.round {createAcceptKey : CStr → CStr} {cfg : Config} {fd id : Fd}
    {st st' : StompState} {c : Call} (h : OneId fd id st)
    (hc : c.input.fd = fd ∨ c.input.fd = sessionSetEncoded fd → c.input.fd = id)
    (hs : readerThread createAcceptKey cfg st c = some st') : OneId fd id st' := by
  have hchange := (readerThread_spec hs).1
  unfold OneId at h ⊢
  revert hchange
  generalize st'.topics = topics
  generalize st'.connected = connected
  intro hchange sub hm ho
  cases hchange with
  | keep => exact h sub hm ho
  | purge => exact h sub (mem_pubsubRemoveClient.mp hm).1 ho
  | connect => exact h sub hm ho
  | disconnect => exact h sub (mem_pubsubRemoveClient.mp hm).1 ho
  | subscribe topic sid =>
    rcases List.mem_append.mp hm with hm | hm
    · exact h sub hm ho
    · rw [List.mem_singleton.mp hm] at ho ⊢
      simp only [ownedBy, Bool.or_eq_true, beq_iff_eq] at ho
      exact hc ho
  | unsubscribe => exact h sub (mem_of_mem_pubsubUnsubscribe hm) ho

theorem OneId.rounds {createAcceptKey : CStr → CStr} {cfg : Config} {fd id : Fd}
    {st st' : StompState} {calls : List Call} (h : OneId fd id st)
    (hc : ∀ c ∈ calls, c.input.fd = fd ∨ c.input.fd = sessionSetEncoded fd → c.input.fd = id)
    (hs : exec (readerThread createAcceptKey cfg) st calls = some st') : OneId fd id st' := by
  induction calls generalizing st with
  | nil =>
    cases hs
    exact h
  | cons c calls ih =>
    obtain ⟨t, ht, hs⟩ := Option.bind_eq_some_iff.mp hs
    exact ih (h.round (hc c (by simp)) ht) (fun c hm => hc c (by simp [hm])) hs

/-- The purge of the id under which a descriptor subscribed leaves nothing of it. -/
theorem clean_of_purge {createAcceptKey : CStr → CStr} {cfg : Config} {fd id : Fd}
    {st st' : StompState} {c : Call} (hfd : fd.toNat ≤ 0x3FFF)
    (hid : id = fd ∨ id = sessionSetEncoded fd) (h : OneId fd id st)
    (hc : c.input.content = lit "CMD") (hp : c.input.fd = sessionSetCmdPurge id)
    (hs : readerThread createAcceptKey cfg st c = some st') : Clean fd st' := by
  have hplain : Plain fd := plain_of_le hfd
  have hmask := sessionWithoutFlags_of_le hfd
  have hw : sessionWoCmdPurge (sessionSetCmdPurge id) = id := by
    rcases hid with rfl | rfl
    · rw [hplain.sessionWoCmdPurge_setCmdPurge, hmask]
    · rw [sessionWoCmdPurge_setCmdPurge_setEncoded, hmask]
  have hbit : sessionWithoutFlags (sessionSetCmdPurge id) = fd := by
    rcases hid with rfl | rfl <;> simp [hmask]
  rw [readerThread_purge createAcceptKey cfg st hc (by rw [hp]; exact isPurge_setCmdPurge id)
    (by rw [hp]; exact setCmdPurge_ne_poison hplain hid), hp, hw, hbit] at hs
  cases hs
  refine ⟨by simp, fun sub hm => ?_⟩
  obtain ⟨hm, hne⟩ := mem_pubsubRemoveClient.mp hm
  cases ho : ownedBy fd sub with
  | false => rfl
  | true => exact absurd (h sub hm ho) hne

/-- After the epoll thread closed a registered descriptor, with `n` messages in the input queue,
and the reader has gone through the queue, nothing of the descriptor is left: for every state the
reader can be in, every queue content, and all messages of the descriptor under its stored id. -/
def LeavesNothing (limit n : ℕ) (fd : Fd) : Prop :=
  ∀ (createAcceptKey : CStr → CStr) (cfg : Config) (now : ℤ) (srv : Server)
    (past calls : List Call) (st st' : StompState),
    Registered srv fd → srv.inputQueue.length = n →
    exec (readerThread createAcceptKey cfg) stompStart past = some st →
    OneId fd (sessionStorageGet srv.storage fd) st →
    (∀ m ∈ srv.inputQueue, m.fd = fd ∨ m.fd = sessionSetEncoded fd →
      m.fd = sessionStorageGet srv.storage fd) →
    calls.map Call.input = (closeConnection limit now srv fd).inputQueue →
    exec (readerThread createAcceptKey cfg) st calls = some st' → Clean fd st'

theorem leavesNothing_of_lt {limit n : ℕ} {fd : Fd} (hfd : fd.toNat ≤ 0x3FFF) (hn : n < limit) :
    LeavesNothing limit n fd := by
  intro key cfg now srv past calls st st' hreg hlen _ hone hq hcalls hexec
  rw [closeConnection_inputQueue hreg.stored_ne_zero, if_pos (by omega)] at hcalls
  obtain ⟨queued, last, rfl, hqueued, hlast⟩ := List.map_eq_append_iff.mp hcalls
  obtain ⟨c, rfl, hc⟩ := List.map_eq_singleton_iff.mp hlast
  rw [exec_append] at hexec
  obtain ⟨t, ht, hexec⟩ := Option.bind_eq_some_iff.mp hexec
  obtain ⟨t', ht', hexec⟩ := Option.bind_eq_some_iff.mp hexec
  cases hexec
  have hone' : OneId fd (sessionStorageGet srv.storage fd) t := by
    refine hone.rounds (fun d hd => ?_) ht
    exact hq d.input (hqueued ▸ List.mem_map_of_mem hd)
  exact clean_of_purge hfd hreg.stored hone' (by rw [hc]) (by rw [hc]) ht'

theorem connected_of_purges (createAcceptKey : CStr → CStr) (cfg : Config) (env : Environment)
    {fd g : Fd} (hg : g.toNat ≤ 0x3FFF) (hne : fd ≠ g) (n : ℕ) (st : StompState)
    (hc : stompSessionIsConnected st.connected fd = true) :
    ∃ st', exec (readerThread createAcceptKey cfg) st
        (List.replicate n ⟨env, ⟨sessionSetCmdPurge g, lit "CMD", 0⟩⟩) = some st' ∧
      stompSessionIsConnected st'.connected fd = true := by
  have hplain : Plain g := plain_of_le hg
  induction n generalizing st with
  | zero => exact ⟨st, rfl, hc⟩
  | succ n ih =>
    have hround := readerThread_purge createAcceptKey cfg st
      (c := ⟨env, ⟨sessionSetCmdPurge g, lit "CMD", 0⟩⟩) rfl (isPurge_setCmdPurge g)
      (setCmdPurge_ne_poison hplain (.inl rfl))
    simp only [List.replicate_succ, exec, hround, Option.bind_some]
    apply ih
    simp only [sessionWithoutFlags_setCmdPurge, sessionWithoutFlags_of_le hg]
    rwa [stompSessionIsConnected_set_of_ne _ hne]

def registeredStorage (fd : Fd) : Storage :=
  { sessionStorageInit with clients := Function.update sessionStorageInit.clients fd.toNat fd }

def otherFd (fd : Fd) : Fd := if fd = 1 then 2 else 1

/-- The epoll thread over a queue of `n` purges of another descriptor. -/
def busyServer (n : ℕ) (fd : Fd) : Server :=
  ⟨registeredStorage fd, WsBuffer.wsInitBuffer,
    List.replicate n ⟨sessionSetCmdPurge (otherFd fd), lit "CMD", 0⟩, []⟩

theorem otherFd_spec (fd : Fd) : fd ≠ otherFd fd ∧ (otherFd fd).toNat ≤ 0x3FFF := by
  unfold otherFd
  split_ifs with h
  · subst h
    decide
  · exact ⟨h, by decide⟩

theorem registered_busyServer {fd : Fd} (h0 : fd ≠ 0) (hfd : fd.toNat ≤ 0x3FFF) (n : ℕ) :
    Registered (busyServer n fd) fd := by
  refine ⟨h0, ?_, .inl ?_⟩
  · unfold maxNumberOfConnections
    omega
  · simp [sessionStorageGet, busyServer, registeredStorage]

/-- The state of the reader after the CONNECT frame of a descriptor. -/
def connectedBy (fd : Fd) : StompState :=
  { stompStart with
    connected := stompSessionSetConnected stompStart.connected (sessionWithoutFlags fd) 1
    output := [messageConnected fd (sessionWithoutFlags fd)] }

theorem exec_connect (createAcceptKey : CStr → CStr) (cfg : Config) (env : Environment) {fd : Fd}
    (hfd : fd.toNat ≤ 0x3FFF) :
    exec (readerThread createAcceptKey cfg) stompStart [⟨env, ⟨fd, lit "CONNECT\n\n", 0⟩⟩] =
      some (connectedBy fd) := by
  have hplain : Plain fd := plain_of_le hfd
  have hp : isPurge fd = false := by rw [isPurge_eq, hplain.sessionIsCmdPurge_eq]
  have hne : fd ≠ poisonFd := by
    rintro rfl
    exact absurd hfd (by decide)
  have hf : wsInputFilterHandshake createAcceptKey ⟨fd, lit "CONNECT\n\n", 0⟩ = none := rfl
  have hs : stompStep cfg stompStart ⟨env, ⟨fd, lit "CONNECT\n\n", 0⟩⟩ = some (connectedBy fd) := by
    rw [stompStep, stompProcess_connect hp (stompSessionIsConnected_init _)]
    rfl
  simp [exec, readerThread, hne, hf, hs]

theorem not_leavesNothing {limit n : ℕ} {fd : Fd} (h0 : fd ≠ 0) (hfd : fd.toNat ≤ 0x3FFF)
    (hn : limit ≤ n) : ¬ LeavesNothing limit n fd := by
  intro h
  let key : CStr → CStr := id
  let cfg : Config := ⟨0, 0⟩
  let env := quietEnvironment 0
  have hreg := registered_busyServer h0 hfd n
  obtain ⟨hne, hother⟩ := otherFd_spec fd
  have hlen : (busyServer n fd).inputQueue.length = n := List.length_replicate
  have hbit : stompSessionIsConnected (connectedBy fd).connected fd = true := by
    simp [connectedBy, sessionWithoutFlags_of_le hfd]
  obtain ⟨st', hexec, hst'⟩ := connected_of_purges key cfg env hother hne n
    (connectedBy fd) hbit
  have hclean := h key cfg 0 (busyServer n fd) _ _ _ st' hreg hlen
    (exec_connect key cfg env hfd) (by simp [OneId, connectedBy, stompStart, pubsubInit]) ?_ ?_ hexec
  · rw [hclean.1] at hst'
    exact absurd hst' (by decide)
  · intro m hm hid
    exfalso
    rw [List.eq_of_mem_replicate hm] at hid
    have hplain : Plain fd := plain_of_le hfd
    have hp := sessionIsCmdPurge_setCmdPurge (otherFd fd)
    rcases hid with hid | hid
    · rw [show sessionSetCmdPurge (otherFd fd) = fd from hid, hplain.sessionIsCmdPurge_eq] at hp
      exact absurd hp (by decide)
    · rw [show sessionSetCmdPurge (otherFd fd) = sessionSetEncoded fd from hid,
        sessionIsCmdPurge_setEncoded, hplain.sessionIsCmdPurge_eq] at hp
      exact absurd hp (by decide)
  · rw [closeConnection_inputQueue hreg.stored_ne_zero, if_neg (by omega)]
    simp [busyServer]

/-- The purge of the epoll thread does its work exactly when the input queue has room for it. -/
theorem leavesNothing_iff (limit n : ℕ) {fd : Fd} (h0 : fd ≠ 0) (hfd : fd.toNat ≤ 0x3FFF) :
    LeavesNothing limit n fd ↔ n < limit := by
  refine ⟨fun h => ?_, leavesNothing_of_lt hfd⟩
  by_contra hn
  exact not_leavesNothing h0 hfd (not_lt.mp hn) h

theorem leavesNothing_three_of_ten : LeavesNothing 10 3 5 :=
  (leavesNothing_iff 10 3 (by decide) (by decide)).mpr (by omega)

/-- A queue at its limit swallows the purge. -/
theorem fullQueue_not_leavesNothing : ¬ LeavesNothing 2 2 5 :=
  not_leavesNothing (by decide) (by decide) le_rfl

/-- The ids under which a registered connection can have subscribed: its descriptor, and the
encoded form once the session is marked as encoded. -/
def madeBy (storage : Storage) (fd : Fd) (sub : Subscription) : Prop :=
  sub.sessionId = fd ∨ sessionStorageIsEncoded storage fd = true ∧ sub.sessionId = sessionSetEncoded fd

/-- Two purge messages lead to the same subscriptions and bits, and remove all subscriptions of
the connection. -/
def TeardownsAgree (cfg : Config) (env : Environment) (storage : Storage) (fd : Fd)
    (st : StompState) (m m' : MessageWithTimestamp) : Prop :=
  ∃ t t' r r', stompProcess cfg env st m = some (t, r) ∧ stompProcess cfg env st m' = some (t', r') ∧
    t.topics = t'.topics ∧ t.connected = t'.connected ∧
    ∀ sub ∈ st.topics, madeBy storage fd sub → sub ∉ t.topics ∧ sub ∉ t'.topics

/-- No subscription that either purge of an encoded session could hit or should have hit, and for
a raw one a descriptor that the mask keeps. -/
def AgreeingList (storage : Storage) (fd : Fd) (topics : Topics) : Prop :=
  if sessionStorageIsEncoded storage fd then
    ∀ sub ∈ topics, sub.sessionId ≠ sessionWithoutFlags fd ∧
      sub.sessionId ≠ sessionSetEncoded (sessionWithoutFlags fd) ∧
      sub.sessionId ≠ fd ∧ sub.sessionId ≠ sessionSetEncoded fd
  else fd.toNat ≤ 0x3FFF ∨ ∀ sub ∈ topics, sub.sessionId ≠ fd

theorem pubsubRemoveClient_eq_iff {topics : Topics} {a b : Fd} (h : a ≠ b) :
    pubsubRemoveClient topics a = pubsubRemoveClient topics b ↔
      ∀ sub ∈ topics, sub.sessionId ≠ a ∧ sub.sessionId ≠ b := by
  constructor
  · intro he sub hm
    constructor
    · intro ha
      have : sub ∈ pubsubRemoveClient topics b := mem_pubsubRemoveClient.mpr ⟨hm, ha ▸ h⟩
      rw [← he] at this
      exact (mem_pubsubRemoveClient.mp this).2 ha
    · intro hb
      have : sub ∈ pubsubRemoveClient topics a := mem_pubsubRemoveClient.mpr ⟨hm, hb ▸ h.symm⟩
      rw [he] at this
      exact (mem_pubsubRemoveClient.mp this).2 hb
  · intro hall
    apply List.filter_congr
    intro sub hm
    have := hall sub hm
    simp [this.1, this.2]

theorem stompProcess_setCmdPurge {cfg : Config} {env : Environment} {st : StompState} {fd : Fd}
    (h : Plain fd) (ts : ℤ) :
    stompProcess cfg env st ⟨sessionSetCmdPurge fd, lit "CMD", ts⟩ = some ({ st with
      topics := pubsubRemoveClient st.topics (sessionWithoutFlags fd)
      connected := stompSessionSetConnected st.connected (sessionWithoutFlags fd) 0 },
      sessionWithoutFlags fd) := by
  rw [stompProcess_purge (isPurge_setCmdPurge fd)]
  simp [h.sessionWoCmdPurge_setCmdPurge]

theorem stompProcess_setCmdPurge_encoded {cfg : Config} {env : Environment} {st : StompState}
    (fd : Fd) (ts : ℤ) :
    stompProcess cfg env st ⟨sessionSetCmdPurge (sessionSetEncoded fd), lit "CMD", ts⟩ =
      some ({ st with
        topics := pubsubRemoveClient st.topics (sessionSetEncoded (sessionWithoutFlags fd))
        connected := stompSessionSetConnected st.connected (sessionWithoutFlags fd) 0 },
        sessionWithoutFlags fd) := by
  rw [stompProcess_purge (isPurge_setCmdPurge _)]
  simp [sessionWoCmdPurge_setCmdPurge_setEncoded]

theorem Registered.stored_cases {srv : Server} {fd : Fd} (h : Registered srv fd) :
    (sessionStorageIsEncoded srv.storage fd = false ∧ sessionStorageGet srv.storage fd = fd) ∨
    (sessionStorageIsEncoded srv.storage fd = true ∧
      sessionStorageGet srv.storage fd = sessionSetEncoded fd) := by
  rcases h.stored with hs | hs
  · refine .inl ⟨?_, hs⟩
    rw [sessionStorageIsEncoded, show srv.storage.clients fd.toNat = fd from hs,
      h.plain.encoded_apart]
    rfl
  · refine .inr ⟨?_, hs⟩
    rw [sessionStorageIsEncoded, show srv.storage.clients fd.toNat = sessionSetEncoded fd from hs]
    exact sessionIsEncoded_setEncoded fd

/-- A raw session: both purges are the same message up to its time. -/
theorem teardownsAgree_raw {cfg : Config} {env : Environment} {st : StompState} {storage : Storage}
    {fd : Fd} (h : Plain fd) (he : sessionStorageIsEncoded storage fd = false) (ts ts' : ℤ) :
    TeardownsAgree cfg env storage fd st ⟨sessionSetCmdPurge fd, lit "CMD", ts⟩
        ⟨sessionSetCmdPurge fd, lit "CMD", ts'⟩ ↔
      fd.toNat ≤ 0x3FFF ∨ ∀ sub ∈ st.topics, sub.sessionId ≠ fd := by
  simp only [TeardownsAgree, madeBy, he, stompProcess_setCmdPurge h, Bool.false_eq_true, false_and,
    or_false]
  constructor
  · rintro ⟨t, t', r, r', ht, -, -, -, hrem⟩
    cases ht
    by_contra hcon
    obtain ⟨hlarge, hsub⟩ := not_or.mp hcon
    push Not at hsub
    obtain ⟨sub, hsm, hid⟩ := hsub
    refine (hrem sub hsm hid).1 (mem_pubsubRemoveClient.mpr ⟨hsm, fun hmask => hlarge ?_⟩)
    exact sessionWithoutFlags_eq_iff.mp (hmask.symm.trans hid)
  · intro hcond
    refine ⟨_, _, _, _, rfl, rfl, rfl, rfl, fun sub hsm hid => ?_⟩
    have hne : sub ∉ pubsubRemoveClient st.topics (sessionWithoutFlags fd) := by
      intro hmem
      rcases hcond with hle | hnone
      · rw [sessionWithoutFlags_of_le hle] at hmem
        exact (mem_pubsubRemoveClient.mp hmem).2 hid
      · exact hnone sub hsm hid
    exact ⟨hne, hne⟩

/-- An encoded session: the purges remove two different ids. -/
theorem teardownsAgree_encoded {cfg : Config} {env : Environment} {st : StompState}
    {storage : Storage} {fd : Fd} (h : Plain fd) (he : sessionStorageIsEncoded storage fd = true)
    (ts ts' : ℤ) :
    TeardownsAgree cfg env storage fd st ⟨sessionSetCmdPurge fd, lit "CMD", ts⟩
        ⟨sessionSetCmdPurge (sessionSetEncoded fd), lit "CMD", ts'⟩ ↔
      ∀ sub ∈ st.topics, sub.sessionId ≠ sessionWithoutFlags fd ∧
        sub.sessionId ≠ sessionSetEncoded (sessionWithoutFlags fd) ∧
        sub.sessionId ≠ fd ∧ sub.sessionId ≠ sessionSetEncoded fd := by
  have hdiff : sessionWithoutFlags fd ≠ sessionSetEncoded (sessionWithoutFlags fd) :=
    (sessionWithoutFlags_plain fd).sessionSetEncoded_ne
  simp only [TeardownsAgree, madeBy, he, stompProcess_setCmdPurge h,
    stompProcess_setCmdPurge_encoded, true_and]
  constructor
  · rintro ⟨t, t', r, r', ht, ht', htop, -, hrem⟩
    cases ht
    cases ht'
    have hnone := (pubsubRemoveClient_eq_iff hdiff).mp htop
    intro sub hsm
    have hstays := mem_pubsubRemoveClient.mpr ⟨hsm, (hnone sub hsm).1⟩
    refine ⟨(hnone sub hsm).1, (hnone sub hsm).2, fun hid => ?_, fun hid => ?_⟩
    · exact (hrem sub hsm (.inl hid)).1 hstays
    · exact (hrem sub hsm (.inr hid)).1 hstays
  · intro hcond
    refine ⟨_, _, _, _, rfl, rfl, ?_, rfl, fun sub hsm hid => ?_⟩
    · exact (pubsubRemoveClient_eq_iff hdiff).mpr fun sub hsm => ⟨(hcond sub hsm).1, (hcond sub hsm).2.1⟩
    · rcases hid with hid | hid
      · exact absurd hid (hcond sub hsm).2.2.1
      · exact absurd hid (hcond sub hsm).2.2.2

/-- The purge of a writer and the one of the epoll thread agree exactly on these lists. -/
theorem teardownsAgree_iff {limit : ℕ} {now : ℤ} {srv : Server} {fd : Fd}
    {m m' : MessageWithTimestamp} (cfg : Config) (env : Environment) (st : StompState)
    (hreg : Registered srv fd)
    (hw : (wCloseConnection srv fd).inputQueue = m :: srv.inputQueue)
    (hc : (closeConnection limit now srv fd).inputQueue = srv.inputQueue ++ [m']) :
    TeardownsAgree cfg env srv.storage fd st m m' ↔ AgreeingList srv.storage fd st.topics := by
  have hm : m = ⟨sessionSetCmdPurge fd, lit "CMD", 0⟩ := by
    rw [wCloseConnection_inputQueue] at hw
    exact (List.cons.inj hw).1.symm
  have hm' : m' = ⟨sessionSetCmdPurge (sessionStorageGet srv.storage fd), lit "CMD", now⟩ := by
    rw [closeConnection_inputQueue hreg.stored_ne_zero] at hc
    split_ifs at hc
    · exact (List.cons.inj (List.append_cancel_left hc)).1.symm
    · simp at hc
  subst hm hm'
  unfold AgreeingList
  obtain ⟨he, hs⟩ | ⟨he, hs⟩ := hreg.stored_cases
  · rw [hs, if_neg (by simp [he])]
    exact teardownsAgree_raw hreg.plain he 0 now
  · rw [hs, if_pos he]
    exact teardownsAgree_encoded hreg.plain he 0 now

def subscribedAs (id : Fd) : StompState := { stompStart with topics := [⟨id, lit "/a", lit "0"⟩] }

theorem teardownsAgree_raw_five :
    TeardownsAgree ⟨0, 0⟩ (quietEnvironment 0) (busyServer 0 5).storage 5 (subscribedAs 5)
      ⟨sessionSetCmdPurge 5, lit "CMD", 0⟩ ⟨sessionSetCmdPurge 5, lit "CMD", 7⟩ := by
  have hreg : Registered (busyServer 0 5) 5 := registered_busyServer (by decide) (by decide) 0
  have hc : (closeConnection 1 7 (busyServer 0 5) 5).inputQueue =
      (busyServer 0 5).inputQueue ++ [⟨sessionSetCmdPurge 5, lit "CMD", 7⟩] :=
    closeConnection_inputQueue hreg.stored_ne_zero
  exact (teardownsAgree_iff _ _ _ hreg (wCloseConnection_inputQueue _ _) hc).mpr (.inl (by decide))

def encodedServer (fd : Fd) : Server :=
  ⟨sessionStorageSetEncoded (registeredStorage fd) fd, WsBuffer.wsInitBuffer, [], []⟩

/-- A websocket client that subscribed: only the epoll thread's purge removes its subscription. -/
theorem encoded_five_teardowns_differ :
    (wCloseConnection (encodedServer 5) 5).inputQueue = [⟨sessionSetCmdPurge 5, lit "CMD", 0⟩] ∧
    (closeConnection 1 0 (encodedServer 5) 5).inputQueue =
      [⟨sessionSetCmdPurge (sessionSetEncoded 5), lit "CMD", 0⟩] ∧
    ¬ TeardownsAgree ⟨0, 0⟩ (quietEnvironment 0) (encodedServer 5).storage 5
      (subscribedAs (sessionSetEncoded 5)) ⟨sessionSetCmdPurge 5, lit "CMD", 0⟩
      ⟨sessionSetCmdPurge (sessionSetEncoded 5), lit "CMD", 0⟩ := by
  refine ⟨wCloseConnection_inputQueue _ _, ?_, ?_⟩
  · rw [closeConnection_inputQueue (by decide)]
    rfl
  · rintro ⟨t, t', r, r', ht, ht', htop, -⟩
    rw [stompProcess_setCmdPurge (plain_of_le (by decide))] at ht
    rw [stompProcess_setCmdPurge_encoded] at ht'
    cases ht
    cases ht'
    exact absurd htop (by decide)

end StompBroker.Teardown
