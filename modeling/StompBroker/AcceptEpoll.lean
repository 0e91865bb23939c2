import StompBroker.Dataframe

/-! The epoll thread: it splits what was read into messages of the input queue and tears
connections down. The writer threads tear blocked connections down on a way of their own. -/
namespace StompBroker.AcceptEpoll
open CString SessionStorage Message WsBuffer Dataframe

/-- What the epoll thread shares with the others. `closed` lists the descriptors handed to
`close`, oldest first. -/
structure Server where
  storage : Storage
  ws : Buffer
  inputQueue : List MessageWithTimestamp
  closed : List Fd

def tsEnqueueLimited {α : Type*} (q : List α) (x : α) (limit : ℕ) : List α × Bool :=
  if q.length < limit then (q ++ [x], true) else (q, false)

/-- The texts between the NUL bytes. Text behind the last NUL counts, an empty rest does not. -/
def splitTexts : List UInt8 → List CStr
  | [] => []
  | b :: bs =>
      if b = 0 then [] :: splitTexts bs
      else match splitTexts bs with
        | [] => [[b]]
        | text :: texts => (b :: text) :: texts

/-- The loop over the texts: the queue with the messages, and how many were dropped with a
warning. -/
def enqueueTexts (limit : ℕ) (now : ℤ) (connSock : Fd) (inputQueue : List MessageWithTimestamp) :
    List CStr → List MessageWithTimestamp × ℕ
  | [] => (inputQueue, 0)
  | text :: texts =>
      let (q, ok) := tsEnqueueLimited inputQueue (messageCreateWithTimestamp connSock text now) limit
      let (q, dropped) := enqueueTexts limit now connSock q texts
      (q, if ok then dropped else dropped + 1)

def putStompMessagesOnQueue (limit : ℕ) (now : ℤ) (connSock : Fd) (readBuffer : List UInt8)
    (inputQueue : List MessageWithTimestamp) (receivedLength : ℕ) :
    List MessageWithTimestamp × ℕ :=
  enqueueTexts limit now connSock inputQueue (splitTexts (readBuffer.take receivedLength))

def cleanByFd (srv : Server) (fd : Fd) : Server :=
  if sessionStorageGet srv.storage fd ≠ 0 then
    let (bi, ws) := wsBufferFind srv.ws fd
    { srv with
      closed := srv.closed ++ [fd]
      storage := sessionStorageRemove srv.storage fd
      ws := wsBufferFree ws bi }
  else srv

def closeConnection (limit : ℕ) (now : ℤ) (srv : Server) (connSock : Fd) : Server :=
  let fdWithFlags := sessionStorageGet srv.storage connSock
  let srv :=
    if fdWithFlags ≠ 0 then
      { srv with
        inputQueue := (putStompMessagesOnQueue limit now (sessionSetCmdPurge fdWithFlags)
          (lit "CMD") srv.inputQueue 3).1 }
    else srv
  cleanByFd srv connSock

/-- The status of the websocket filter that makes the epoll thread drop the connection. -/
def dropsConnection : WsStatus → Bool
  | .opcodeClientDisconnect | .bufferOutOfSlots | .bufferExceededMax | .invalidHeader
  | .tooLargeDataframe | .notADataframe => true
  | _ => false

/-- What was read goes through the websocket filter, under the session mutex, and on to the
input queue: the filter's status, the number of dropped messages and the new state. `none` when
the filter does not return. -/
def filterInput (limit : ℕ) (now : ℤ) (srv : Server) (connSock : Fd) (readBuffer : List UInt8)
    (receivedLength : ℕ) : Option (WsStatus × ℕ × Server) := do
  let r ← wsInputFilterDataframe srv.storage srv.ws connSock readBuffer receivedLength
  let (inputQueue, dropped) :=
    if r.status = .notADataframe then
      putStompMessagesOnQueue limit now connSock readBuffer srv.inputQueue receivedLength
    else putStompMessagesOnQueue limit now (sessionSetEncoded connSock) (r.out.getD [])
      srv.inputQueue r.decodedBufLen
  return (r.status, dropped, { srv with
    storage := sessionStorageUnlock r.storage, ws := r.ws, inputQueue := inputQueue })

/-- One event of a connection with the read buffer after `recv` and the length it returned. The
way out for too many sessions leaves the session mutex locked. -/
def doUseFd (limit : ℕ) (now : ℤ) (srv : Server) (connSock : Fd) (readBuffer : List UInt8)
    (receivedLength : ℤ) : Option Server :=
  if receivedLength < 1 then some (closeConnection limit now srv connSock)
  else
    let srv := { srv with storage := sessionStorageLock srv.storage }
    match sessionStorageAddNew srv.storage connSock with
    | (.maxSessionNumberExceeded, _) => some { srv with closed := srv.closed ++ [connSock] }
    | (_, storage) => do
        let (status, _, srv) ← filterInput limit now { srv with storage := storage } connSock
          readBuffer receivedLength.toNat
        if status ≠ .notADataframe ∧ dropsConnection status then
          return closeConnection limit now srv connSock
        return srv

/-- The purge of a writer goes to the head of the input queue, whatever its length, and is made
from the bare socket number. -/
def wCloseConnection (srv : Server) (connSock : Fd) : Server :=
  let incomingMessage := messageCreateWithTimestamp (sessionSetCmdPurge connSock) (lit "CMD") 0
  let srv := { srv with
    inputQueue := incomingMessage :: srv.inputQueue
    storage := sessionStorageLock srv.storage }
  let srv := cleanByFd srv connSock
  { srv with storage := sessionStorageUnlock srv.storage }

@[simp] theorem splitTexts_cmd : splitTexts (lit "CMD") = [lit "CMD"] := rfl

theorem splitTexts_append {text : CStr} (bs : List UInt8) (hn : (0 : UInt8) ∉ text) :
    splitTexts (text ++ 0 :: bs) = text :: splitTexts bs := by
  induction text with
  | nil => simp [splitTexts]
  | cons b text ih =>
    have hb : b ≠ 0 := fun h => hn (by simp [h])
    simp [splitTexts, hb, ih fun h => hn (by simp [h])]

theorem splitTexts_singleton {text : CStr} (hne : text ≠ []) (hn : (0 : UInt8) ∉ text) :
    splitTexts text = [text] := by
  induction text with
  | nil => exact absurd rfl hne
  | cons b text ih =>
    have hb : b ≠ 0 := fun h => hn (by simp [h])
    cases text with
    | nil => simp [splitTexts, hb]
    | cons c text =>
      rw [splitTexts, if_neg hb, ih (by simp) fun h => hn (List.mem_cons_of_mem b h)]

theorem enqueueTexts_fst {limit : ℕ} {now : ℤ} {connSock : Fd} {q : List MessageWithTimestamp}
    {texts : List CStr} (h : (enqueueTexts limit now connSock q texts).2 = 0) :
    (enqueueTexts limit now connSock q texts).1 = q ++ texts.map (⟨connSock, ·, now⟩) := by
  induction texts generalizing q with
  | nil => simp [enqueueTexts]
  | cons text texts ih =>
    by_cases hl : q.length < limit
    · simp only [enqueueTexts, tsEnqueueLimited, hl, if_true] at h ⊢
      rw [ih h]
      simp [messageCreateWithTimestamp]
    · simp [enqueueTexts, tsEnqueueLimited, hl] at h

@[simp] theorem cleanByFd_inputQueue (srv : Server) (fd : Fd) :
    (cleanByFd srv fd).inputQueue = srv.inputQueue := by
  unfold cleanByFd
  split_ifs <;> rfl

/-- The purge of a registered connection joins the queue only below the limit. -/
theorem closeConnection_inputQueue {limit : ℕ} {now : ℤ} {srv : Server} {fd : Fd}
    (h : sessionStorageGet srv.storage fd ≠ 0) :
    (closeConnection limit now srv fd).inputQueue =
      if srv.inputQueue.length < limit then srv.inputQueue ++
        [⟨sessionSetCmdPurge (sessionStorageGet srv.storage fd), lit "CMD", now⟩]
      else srv.inputQueue := by
  have ht : (lit "CMD").take 3 = lit "CMD" := rfl
  rw [closeConnection, if_pos h, cleanByFd_inputQueue]
  by_cases hl : srv.inputQueue.length < limit <;>
    simp [putStompMessagesOnQueue, ht, enqueueTexts, tsEnqueueLimited, messageCreateWithTimestamp, hl]

theorem wCloseConnection_inputQueue (srv : Server) (fd : Fd) :
    (wCloseConnection srv fd).inputQueue =
      ⟨sessionSetCmdPurge fd, lit "CMD", 0⟩ :: srv.inputQueue := by
  simp [wCloseConnection, messageCreateWithTimestamp]

theorem enqueueTexts_append (limit : ℕ) (now : ℤ) (connSock : Fd) (q : List MessageWithTimestamp)
    (texts : List CStr) : ∃ new, (enqueueTexts limit now connSock q texts).1 = q ++ new ∧
      ∀ m ∈ new, m.fd = connSock ∧ m.content ∈ texts := by
  induction texts generalizing q with
  | nil => exact ⟨[], by simp [enqueueTexts]⟩
  | cons text texts ih =>
    by_cases hl : q.length < limit
    · obtain ⟨new, hq, hnew⟩ := ih (q ++ [messageCreateWithTimestamp connSock text now])
      refine ⟨messageCreateWithTimestamp connSock text now :: new, ?_, ?_⟩
      · simp [enqueueTexts, tsEnqueueLimited, hl, hq]
      · intro m hm
        rcases List.mem_cons.mp hm with rfl | hm
        · exact ⟨rfl, by simp [messageCreateWithTimestamp]⟩
        · exact ⟨(hnew m hm).1, List.mem_cons_of_mem _ (hnew m hm).2⟩
    · obtain ⟨new, hq, hnew⟩ := ih q
      refine ⟨new, by simp [enqueueTexts, tsEnqueueLimited, hl, hq], fun m hm => ?_⟩
      exact ⟨(hnew m hm).1, List.mem_cons_of_mem _ (hnew m hm).2⟩

/-- A message that the epoll thread adds for a descriptor: one of its texts, or the purge of its
session. -/
def AddedFor (connSock : Fd) (m : MessageWithTimestamp) : Prop :=
  m.fd = connSock ∨ m.fd = sessionSetEncoded connSock ∨
    (∃ id, m.fd = sessionSetCmdPurge id) ∧ m.content = lit "CMD"

theorem closeConnection_append (limit : ℕ) (now : ℤ) (srv : Server) (connSock : Fd) :
    ∃ new, (closeConnection limit now srv connSock).inputQueue = srv.inputQueue ++ new ∧
      ∀ m ∈ new, AddedFor connSock m := by
  by_cases h : sessionStorageGet srv.storage connSock = 0
  · exact ⟨[], by simp [closeConnection, h]⟩
  · rw [closeConnection_inputQueue h]
    split_ifs
    · refine ⟨_, rfl, fun m hm => .inr (.inr ?_)⟩
      rw [List.mem_singleton.mp hm]
      exact ⟨⟨_, rfl⟩, rfl⟩
    · exact ⟨[], by simp⟩

theorem filterInput_append {limit : ℕ} {now : ℤ} {srv srv' : Server} {connSock : Fd}
    {readBuffer : List UInt8} {receivedLength dropped : ℕ} {status : WsStatus}
    (h : filterInput limit now srv connSock readBuffer receivedLength = some (status, dropped, srv')) :
    ∃ new, srv'.inputQueue = srv.inputQueue ++ new ∧ ∀ m ∈ new, AddedFor connSock m := by
  obtain ⟨r, -, h⟩ := Option.bind_eq_some_iff.mp h
  simp only [pure, Option.some.injEq, Prod.mk.injEq] at h
  obtain ⟨-, -, rfl⟩ := h
  split_ifs
  · obtain ⟨new, hq, hnew⟩ := enqueueTexts_append limit now connSock srv.inputQueue
      (splitTexts (readBuffer.take receivedLength))
    exact ⟨new, hq, fun m hm => .inl (hnew m hm).1⟩
  · obtain ⟨new, hq, hnew⟩ := enqueueTexts_append limit now (sessionSetEncoded connSock)
      srv.inputQueue (splitTexts ((r.out.getD []).take r.decodedBufLen))
    exact ⟨new, hq, fun m hm => .inr (.inl (hnew m hm).1)⟩

theorem doUseFd_append {limit : ℕ} {now : ℤ} {srv srv' : Server} {connSock : Fd}
    {readBuffer : List UInt8} {receivedLength : ℤ}
    (h : doUseFd limit now srv connSock readBuffer receivedLength = some srv') :
    ∃ new, srv'.inputQueue = srv.inputQueue ++ new ∧ ∀ m ∈ new, AddedFor connSock m := by
  unfold doUseFd at h
  split_ifs at h
  · cases h
    exact closeConnection_append limit now srv connSock
  · dsimp only at h
    split at h
    · cases h
      exact ⟨[], by simp⟩
    · obtain ⟨⟨status, dropped, srv₁⟩, hf, h⟩ := Option.bind_eq_some_iff.mp h
      obtain ⟨new, hq, hnew⟩ := filterInput_append hf
      simp only [pure] at h
      split_ifs at h
      · cases h
        obtain ⟨new', hq', hnew'⟩ := closeConnection_append limit now srv₁ connSock
        refine ⟨new ++ new', by rw [hq', hq, List.append_assoc], fun m hm => ?_⟩
        rcases List.mem_append.mp hm with hm | hm
        · exact hnew m hm
        · exact hnew' m hm
      · cases h
        exact ⟨new, hq, hnew⟩

end StompBroker.AcceptEpoll
