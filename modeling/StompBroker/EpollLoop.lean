import StompBroker.Chunking

/-! The steps that open and close connections: reads of the epoll thread, its own teardowns and
those of the writers. Each of them moves the session table, the session mutex and the list of
closed descriptors together. -/
namespace StompBroker.EpollLoop
open CString SessionStorage Message WsBuffer Dataframe DecodeLoop AcceptEpoll TransitionSystem
open Chunking (wsChannelIsEncoded_of_encoded wsInputFilterDataframe_raw)

/-- Two read buffers with the same received bytes are treated alike, whatever stands behind these. -/
def ReceivedBytesDecide (inputBufferSize : ℕ) (storage : Storage) (fd : Fd) (readLen : ℕ) : Prop :=
  ∀ a b : List UInt8, a.length = inputBufferSize + 1 → b.length = inputBufferSize + 1 →
    a.take readLen = b.take readLen → wsChannelIsEncoded storage fd a = wsChannelIsEncoded storage fd b

theorem setEncoded_eq_self_iff (storage : Storage) (fd : Fd) :
    sessionStorageSetEncoded storage fd = storage ↔
      sessionStorageGet storage fd = sessionSetEncoded fd := by
  obtain ⟨clients, number, locks⟩ := storage
  simp only [sessionStorageSetEncoded, Storage.mk.injEq, and_true, Function.update_eq_self_iff]
  exact eq_comm

/-- The received bytes decide unless only one was received; then they do exactly for a session that is
already marked as encoded. -/
theorem received_bytes_decide_iff {inputBufferSize readLen : ℕ} (hread : 1 ≤ readLen)
    (hsize : readLen ≤ inputBufferSize) (storage : Storage) (fd : Fd) :
    ReceivedBytesDecide inputBufferSize storage fd readLen ↔
      2 ≤ readLen ∨ sessionStorageGet storage fd = sessionSetEncoded fd := by
  constructor
  · intro h
    by_contra hno
    obtain ⟨hone, hget⟩ := not_or.1 hno
    obtain rfl : readLen = 1 := by omega
    have hlen : ∀ b : UInt8, (0 :: b :: List.replicate (inputBufferSize - 1) 0).length = inputBufferSize + 1 := by
      intro b
      simp only [List.length_cons, List.length_replicate]
      omega
    have heq := h (0 :: 0x80 :: List.replicate (inputBufferSize - 1) 0)
      (0 :: 0 :: List.replicate (inputBufferSize - 1) 0) (hlen 0x80) (hlen 0) rfl
    simp only [wsChannelIsEncoded, List.getD_cons_succ, List.getD_cons_zero] at heq
    rw [if_pos (by decide), if_neg (by decide), Prod.mk.injEq] at heq
    exact hget ((setEncoded_eq_self_iff storage fd).1 heq.2)
  · rintro (htwo | hget) a b ha hb hab
    · have hbyte : a.getD 1 0 = b.getD 1 0 := by
        have h1 := congrArg (fun l => l.getD 1 0) hab
        simpa [List.getD_eq_getElem?_getD, List.getElem?_take, show 1 < readLen by omega] using h1
      simp only [wsChannelIsEncoded, hbyte]
    · rw [wsChannelIsEncoded_of_encoded hget, wsChannelIsEncoded_of_encoded hget]

theorem received_bytes_decide_iff_twoBytes : ReceivedBytesDecide 16000 sessionStorageInit 5 2 :=
  (received_bytes_decide_iff (by decide) (by decide) _ _).2 (.inl le_rfl)

/-- One byte of a raw session, in front of what another connection left in the read buffer. -/
theorem leftover_marks_session :
    ([0x53, 0x80] : List UInt8).take 1 = [0x53, 0x45].take 1 ∧
    (wsChannelIsEncoded (sessionStorageAddNew sessionStorageInit 5).2 5 [0x53, 0x45]).1 = false ∧
    (wsChannelIsEncoded (sessionStorageAddNew sessionStorageInit 5).2 5 [0x53, 0x80]).1 = true ∧
    sessionStorageGet (wsChannelIsEncoded (sessionStorageAddNew sessionStorageInit 5).2 5 [0x53, 0x80]).2 5 =
      sessionSetEncoded 5 := by
  decide

inductive Event
  | read (now : ℤ) (fd : Fd) (readBuffer : List UInt8) (receivedLength : ℤ)
  | close (now : ℤ) (fd : Fd)
  | drop (fd : Fd)

def Event.fd : Event → Fd
  | .read _ fd _ _ => fd
  | .close _ fd => fd
  | .drop fd => fd

def Event.isData : Event → Bool
  | .read _ _ _ receivedLength => decide (1 ≤ receivedLength)
  | _ => false

/-- `recv` reported the end of the stream or an error. -/
def Event.isEnd : Event → Bool
  | .read _ _ _ receivedLength => decide (receivedLength < 1)
  | _ => false

def loopStep (limit : ℕ) (srv : Server) : Event → Option Server
  | .read now fd readBuffer receivedLength => doUseFd limit now srv fd readBuffer receivedLength
  | .close now fd => some (closeConnection limit now srv fd)
  | .drop fd => some (wCloseConnection srv fd)

def InTable (srv : Server) (fd : Fd) : Prop := sessionStorageGet srv.storage fd ≠ 0

/-- The test of the session table before it looks whether the descriptor is registered. -/
def TableFull (srv : Server) (fd : Fd) : Prop :=
  srv.storage.numberOfClients ≥ maxNumberOfConnections ∨ fd.toInt > maxNumberOfConnections

def Refused (srv : Server) (e : Event) : Prop := e.isData = true ∧ TableFull srv e.fd

instance (srv : Server) (fd : Fd) : Decidable (TableFull srv fd) := inferInstanceAs (Decidable (_ ∨ _))

instance (srv : Server) (e : Event) : Decidable (Refused srv e) := inferInstanceAs (Decidable (_ ∧ _))

/-- The descriptors handed to `close` between two states. -/
def newlyClosed (srv srv' : Server) : List Fd := srv'.closed.drop srv.closed.length

theorem newlyClosed_of_same {srv srv' : Server} (h : srv'.closed = srv.closed) : newlyClosed srv srv' = [] := by
  simp [newlyClosed, h]

theorem newlyClosed_of_append {srv srv' : Server} {fd : Fd} (h : srv'.closed = srv.closed ++ [fd]) :
    newlyClosed srv srv' = [fd] := by
  simp [newlyClosed, h]

/-- Only a registered descriptor is closed, and it leaves the table with that. -/
def TornDown (fd : Fd) (srv srv' : Server) : Prop :=
  (¬ InTable srv fd ∧ srv'.storage = srv.storage ∧ srv'.closed = srv.closed) ∨
  (InTable srv fd ∧ srv'.storage = sessionStorageRemove srv.storage fd ∧ srv'.closed = srv.closed ++ [fd])

def admittedStorage (storage : Storage) (fd : Fd) (readBuffer : List UInt8) : Storage :=
  (wsChannelIsEncoded (sessionStorageAddNew storage fd).2 fd readBuffer).2

variable {limit : ℕ} {now : ℤ} {srv srv' : Server} {fd : Fd} {readBuffer : List UInt8} {receivedLength : ℤ}

theorem TornDown.of_eq {srv₀ : Server} (h : TornDown fd srv₀ srv') (hstorage : srv₀.storage = srv.storage)
    (hclosed : srv₀.closed = srv.closed) : TornDown fd srv srv' := by
  unfold TornDown InTable at h ⊢
  rwa [hstorage, hclosed] at h

theorem tornDown_cleanByFd (srv : Server) (fd : Fd) : TornDown fd srv (cleanByFd srv fd) := by
  by_cases h : sessionStorageGet srv.storage fd = 0
  · rw [cleanByFd, if_neg (not_not_intro h)]
    exact .inl ⟨not_not_intro h, rfl, rfl⟩
  · rw [cleanByFd, if_pos h]
    exact .inr ⟨h, rfl, rfl⟩

theorem tornDown_closeConnection (limit : ℕ) (now : ℤ) (srv : Server) (fd : Fd) :
    TornDown fd srv (closeConnection limit now srv fd) := by
  unfold closeConnection
  dsimp only
  split_ifs
  · exact (tornDown_cleanByFd _ fd).of_eq rfl rfl
  · exact tornDown_cleanByFd srv fd

theorem tornDown_wCloseConnection (srv : Server) (fd : Fd) : TornDown fd srv (wCloseConnection srv fd) := by
  unfold wCloseConnection
  dsimp only
  rcases tornDown_cleanByFd { srv with
      inputQueue := messageCreateWithTimestamp (sessionSetCmdPurge fd) (lit "CMD") 0 :: srv.inputQueue
      storage := sessionStorageLock srv.storage } fd with ⟨hno, hstorage, hclosed⟩ | ⟨hin, hstorage, hclosed⟩
  · refine .inl ⟨hno, ?_, hclosed⟩
    rw [hstorage]
    rfl
  · refine .inr ⟨hin, ?_, hclosed⟩
    rw [hstorage]
    rfl

theorem wsInputFilterDataframe_storage {storage : Storage} {ws : Buffer} {readLen : ℕ} {r : FilterResult}
    (h : wsInputFilterDataframe storage ws fd readBuffer readLen = some r) :
    r.storage = (wsChannelIsEncoded storage fd readBuffer).2 := by
  have hdecode : ∀ {storage ws i} {r : FilterResult}, decodeBuffered storage ws i = some r →
      r.storage = storage := by
    intro storage ws i r h
    obtain ⟨s, -, h⟩ := Option.bind_eq_some_iff.mp h
    exact (Option.some.inj h) ▸ rfl
  unfold wsInputFilterDataframe at h
  dsimp only at h
  split_ifs at h
  · exact (Option.some.inj h) ▸ rfl
  · split at h
    · exact hdecode h
    · split at h
      · exact (Option.some.inj h) ▸ rfl
      · exact hdecode h
  · exact (Option.some.inj h) ▸ rfl

theorem filterInput_storage {n dropped : ℕ} {status : WsStatus}
    (h : filterInput limit now srv fd readBuffer n = some (status, dropped, srv')) :
    srv'.storage = sessionStorageUnlock (wsChannelIsEncoded srv.storage fd readBuffer).2 ∧
      srv'.closed = srv.closed := by
  obtain ⟨r, hr, h⟩ := Option.bind_eq_some_iff.mp h
  simp only [pure, Option.some.injEq, Prod.mk.injEq] at h
  obtain ⟨-, -, rfl⟩ := h
  exact ⟨congrArg sessionStorageUnlock (wsInputFilterDataframe_storage hr), rfl⟩

theorem unlock_admitted_lock (storage : Storage) (fd : Fd) (readBuffer : List UInt8) :
    sessionStorageUnlock (admittedStorage (sessionStorageLock storage) fd readBuffer) =
      admittedStorage storage fd readBuffer := by
  unfold admittedStorage sessionStorageAddNew wsChannelIsEncoded sessionStorageLock
  split_ifs <;> rfl

theorem addNew_eq_exceeded_iff (storage : Storage) (fd : Fd) :
    (sessionStorageAddNew storage fd).1 = .maxSessionNumberExceeded ↔
      storage.numberOfClients ≥ maxNumberOfConnections ∨ fd.toInt > maxNumberOfConnections := by
  unfold sessionStorageAddNew
  split_ifs <;> simp_all

theorem doUseFd_of_taken (limit : ℕ) (now : ℤ) (readBuffer : List UInt8) (hdata : 1 ≤ receivedLength)
    (hfull : ¬ TableFull srv fd) :
    doUseFd limit now srv fd readBuffer receivedLength =
      (filterInput limit now
        { srv with storage := (sessionStorageAddNew (sessionStorageLock srv.storage) fd).2 } fd readBuffer
        receivedLength.toNat).map fun p =>
          if p.1 ≠ .notADataframe ∧ dropsConnection p.1 then closeConnection limit now p.2.2 fd else p.2.2 := by
  have hadd : (sessionStorageAddNew (sessionStorageLock srv.storage) fd).1 ≠ .maxSessionNumberExceeded :=
    fun hex => hfull ((addNew_eq_exceeded_iff (sessionStorageLock srv.storage) fd).1 hex)
  rw [doUseFd, if_neg (by omega)]
  dsimp only
  split
  · rename_i heq
    rw [heq] at hadd
    exact absurd rfl hadd
  · rename_i heq
    rw [heq, Option.map_eq_bind]
    refine congrArg _ (funext fun p => ?_)
    dsimp only [Function.comp_apply]
    split_ifs <;> rfl

/-- Everything a read can do to the session table and the closed descriptors: tear the connection
down at the end of the stream, turn it away, or admit it and perhaps tear it down then. -/
theorem doUseFd_cases (h : doUseFd limit now srv fd readBuffer receivedLength = some srv') :
    (receivedLength < 1 ∧ TornDown fd srv srv') ∨
    (1 ≤ receivedLength ∧ TableFull srv fd ∧ srv'.storage = sessionStorageLock srv.storage ∧
      srv'.closed = srv.closed ++ [fd]) ∨
    (1 ≤ receivedLength ∧ ¬ TableFull srv fd ∧ ∃ mid : Server,
      mid.storage = admittedStorage srv.storage fd readBuffer ∧ mid.closed = srv.closed ∧
      (srv' = mid ∨ TornDown fd mid srv')) := by
  by_cases hend : receivedLength < 1
  · rw [doUseFd, if_pos hend] at h
    obtain rfl := Option.some.inj h
    exact .inl ⟨hend, tornDown_closeConnection limit now srv fd⟩
  have hdata : 1 ≤ receivedLength := by omega
  by_cases hfull : TableFull srv fd
  · have hadd : sessionStorageAddNew (sessionStorageLock srv.storage) fd =
        (.maxSessionNumberExceeded, sessionStorageLock srv.storage) := if_pos hfull
    simp only [doUseFd, if_neg hend, hadd] at h
    obtain rfl := Option.some.inj h
    exact .inr (.inl ⟨hdata, hfull, rfl, rfl⟩)
  · rw [doUseFd_of_taken limit now readBuffer hdata hfull] at h
    obtain ⟨⟨status, dropped, mid⟩, hf, rfl⟩ := Option.map_eq_some_iff.mp h
    obtain ⟨hstorage, hclosed⟩ := filterInput_storage hf
    refine .inr (.inr ⟨hdata, hfull, mid, ?_, hclosed, ?_⟩)
    · rw [hstorage, ← unlock_admitted_lock]
      rfl
    · dsimp only
      split_ifs
      · exact .inr (tornDown_closeConnection limit now mid fd)
      · exact .inl rfl

theorem doUseFd_raw (limit : ℕ) (now : ℤ) (hdata : 1 ≤ receivedLength) (hfull : ¬ TableFull srv fd)
    (hnew : sessionStorageGet srv.storage fd = 0) (hplain : Plain fd) (hmask : readBuffer.getD 1 0 &&& 0x80 = 0) :
    ∃ srv', doUseFd limit now srv fd readBuffer receivedLength = some srv' ∧
      srv'.storage = admittedStorage srv.storage fd readBuffer := by
  have hfree : ¬ (srv.storage.clients fd.toNat).toInt > 0 := by
    rw [show srv.storage.clients fd.toNat = 0 from hnew]
    decide
  have hadd : (sessionStorageAddNew (sessionStorageLock srv.storage) fd).2.clients =
      Function.update srv.storage.clients fd.toNat fd :=
    congrArg (fun p : SessionStatus × Storage => p.2.clients) ((if_neg hfull).trans (if_neg hfree))
  have hraw : sessionStorageIsEncoded (sessionStorageAddNew (sessionStorageLock srv.storage) fd).2 fd = false := by
    simp [sessionStorageIsEncoded, hadd, hplain.encoded_apart]
  have hchannel : (wsChannelIsEncoded (sessionStorageAddNew (sessionStorageLock srv.storage) fd).2 fd
      readBuffer).1 = false := by
    rw [wsChannelIsEncoded, if_neg (not_not_intro hmask), hraw]
  rw [doUseFd_of_taken limit now readBuffer hdata hfull, ← unlock_admitted_lock, admittedStorage]
  simp [filterInput, wsInputFilterDataframe_raw _ _ hchannel]

theorem TornDown.locks (h : TornDown fd srv srv') : srv'.storage.locks = srv.storage.locks := by
  rcases h with ⟨-, hstorage, -⟩ | ⟨-, hstorage, -⟩
  · rw [hstorage]
  · rw [hstorage]
    rfl

theorem admittedStorage_locks (storage : Storage) (fd : Fd) (readBuffer : List UInt8) :
    (admittedStorage storage fd readBuffer).locks = storage.locks := by
  unfold admittedStorage sessionStorageAddNew wsChannelIsEncoded
  split_ifs <;> rfl

theorem doUseFd_locks (h : doUseFd limit now srv fd readBuffer receivedLength = some srv') :
    srv'.storage.locks = srv.storage.locks + if 1 ≤ receivedLength ∧ TableFull srv fd then 1 else 0 := by
  obtain ⟨hend, htorn⟩ | ⟨hdata, hfull, hstorage, -⟩ | ⟨-, hfull, mid, hstorage, -, hmid⟩ := doUseFd_cases h
  · rw [htorn.locks, if_neg (by omega), Nat.add_zero]
  · rw [hstorage, if_pos ⟨hdata, hfull⟩]
    rfl
  · rw [if_neg (by tauto), Nat.add_zero, ← admittedStorage_locks srv.storage fd readBuffer, ← hstorage]
    rcases hmid with rfl | htorn
    · rfl
    · exact htorn.locks

theorem loopStep_locks {e : Event} (h : loopStep limit srv e = some srv') :
    srv'.storage.locks = srv.storage.locks + if Refused srv e then 1 else 0 := by
  cases e with
  | read now fd readBuffer receivedLength => simpa [Refused, Event.isData, Event.fd] using doUseFd_locks h
  | close now fd =>
    obtain rfl := Option.some.inj h
    simpa [Refused, Event.isData] using (tornDown_closeConnection limit now srv fd).locks
  | drop fd =>
    obtain rfl := Option.some.inj h
    simpa [Refused, Event.isData] using (tornDown_wCloseConnection srv fd).locks

theorem exec_locks_le {events : List Event} (h : exec (loopStep limit) srv events = some srv') :
    srv.storage.locks ≤ srv'.storage.locks := by
  refine (run_of_exec h).invariant (I := fun t => srv.storage.locks ≤ t.storage.locks) le_rfl ?_
  intro s e t hle hstep
  have := loopStep_locks hstep
  omega

/-- The bytes that the decode loop finds in the slot of a connection after a read: the slot it has, or
the first free one. -/
def loopBytes (ws : Buffer) (fd : Fd) (readBuffer : List UInt8) (readLen : ℕ) : Option (List UInt8) :=
  match ws.items.findIdx? (fun item => item.fd == fd) with
  | some i => some ((ws.items.getD i freeItem).received.getD [] ++ readBuffer.take readLen)
  | none => match ws.items.findIdx? (fun item => item.fd == 0) with
    | some i => if (ws.items.getD i freeItem).frameLen = 0 then some (readBuffer.take readLen) else none
    | none => none

/-- A read counts as encoded by its second byte, or by the entry that the table has or makes for it. -/
def Encodes (storage : Storage) (fd : Fd) (readBuffer : List UInt8) : Prop :=
  readBuffer.getD 1 0 &&& 0x80 ≠ 0 ∨
    sessionIsEncoded (if 0 < (sessionStorageGet storage fd).toInt then sessionStorageGet storage fd else fd) = true

/-- An encoded read that fits the buffer and brings a text frame without payload to the decode loop:
the loop runs for ever or ends the process, with the session mutex held in either case. -/
def Endless (srv : Server) (fd : Fd) (readBuffer : List UInt8) (readLen : ℕ) : Prop :=
  Encodes srv.storage fd readBuffer ∧ 0 ≤ wsBufferSizeLeft srv.ws readLen ∧
    ∃ bytes, loopBytes srv.ws fd readBuffer readLen = some bytes ∧ EmptyFrameAhead bytes

theorem decodeBuffered_eq_none_iff (storage : Storage) (ws : Buffer) (i : ℕ) :
    decodeBuffered storage ws i = none ↔ (ws.items.getD i freeItem).frameLen = 0 ∧
      EmptyFrameAhead ((ws.items.getD i freeItem).received.getD []) := by
  unfold decodeBuffered
  generalize ws.items.getD i freeItem = buff
  have hloop : decodeLoop (buff.receivedLen + 1) ⟨buff, ws.allocatedSize, none, .inr 0⟩ = none ↔
      buff.frameLen = 0 ∧ EmptyFrameAhead (buff.received.getD []) := decodeLoop_eq_none_iff (Nat.lt_succ_self _)
  rw [← hloop]
  dsimp only
  generalize decodeLoop (buff.receivedLen + 1) ⟨buff, ws.allocatedSize, none, .inr 0⟩ = after
  cases after <;> simp

theorem getD_set_of_findIdx {items : List BufferItem} {P : BufferItem → Bool} {i : ℕ} (item : BufferItem)
    (h : items.findIdx? P = some i) : (items.set i item).getD i freeItem = item := by
  obtain ⟨hi, -⟩ := List.findIdx?_eq_some_iff_getElem.1 h
  simp [List.getD_eq_getElem?_getD, hi]

theorem take_wsBufferResize (item : BufferItem) (allocated : BitVec 64) {n : ℕ} (hpos : 0 < n) :
    ((wsBufferResize item allocated item.receivedLen (item.receivedLen + n)).1.received.getD []).take
      item.receivedLen = item.received.getD [] := by
  have hgrow := erealloc_grow item.received hpos
  simp only [wsBufferResize, if_pos (show item.receivedLen + n > 0 by omega)]
  rw [BufferItem.receivedLen, hgrow, Option.getD_some, List.take_left]

section Filter
variable {storage : Storage} {ws : Buffer} {readBuffer : List UInt8} {readLen : ℕ}

-- finding the slot only counts a hit or a miss
theorem wsBufferSizeLeft_found (hit miss : BitVec 64) :
    wsBufferSizeLeft ⟨ws.items, ws.allocatedSize, hit, miss⟩ readLen = wsBufferSizeLeft ws readLen := rfl

theorem filter_full (henc : (wsChannelIsEncoded storage fd readBuffer).1 = true) (hroom : wsBufferSizeLeft ws readLen < 0) :
    wsInputFilterDataframe storage ws fd readBuffer readLen ≠ none := by
  unfold wsInputFilterDataframe wsBufferFind
  dsimp only
  rw [if_pos henc]
  split
  all_goals
    dsimp only
    rw [wsBufferSizeLeft_found, if_pos hroom]
    nofun

theorem filter_slot_eq_none_iff (henc : (wsChannelIsEncoded storage fd readBuffer).1 = true)
    (hroom : ¬ wsBufferSizeLeft ws readLen < 0) (hpos : 0 < readLen) {i : ℕ}
    (hi : ws.items.findIdx? (fun item => item.fd == fd) = some i) :
    wsInputFilterDataframe storage ws fd readBuffer readLen = none ↔
      ∃ bytes, loopBytes ws fd readBuffer readLen = some bytes ∧ EmptyFrameAhead bytes := by
  unfold wsInputFilterDataframe loopBytes wsBufferFind
  dsimp only
  rw [if_pos henc, hi]
  dsimp only
  rw [wsBufferSizeLeft_found, if_neg hroom, decodeBuffered_eq_none_iff, getD_set_of_findIdx _ hi, take_wsBufferResize _ _ hpos]
  constructor
  · rintro ⟨-, ahead⟩
    exact ⟨_, rfl, ahead⟩
  · rintro ⟨bytes, hbytes, ahead⟩
    obtain rfl := Option.some.inj hbytes
    exact ⟨rfl, ahead⟩

theorem filter_new_eq_none_iff (henc : (wsChannelIsEncoded storage fd readBuffer).1 = true)
    (hroom : ¬ wsBufferSizeLeft ws readLen < 0) (hi : ws.items.findIdx? (fun item => item.fd == fd) = none) :
    wsInputFilterDataframe storage ws fd readBuffer readLen = none ↔
      ∃ bytes, loopBytes ws fd readBuffer readLen = some bytes ∧ EmptyFrameAhead bytes := by
  unfold wsInputFilterDataframe loopBytes wsBufferFind
  dsimp only
  rw [if_pos henc, hi]
  dsimp only
  rw [wsBufferSizeLeft_found, if_neg hroom, wsBufferAdd]
  dsimp only
  cases hj : ws.items.findIdx? (fun item => item.fd == 0) with
  | none => simp
  | some j =>
    dsimp only
    rw [decodeBuffered_eq_none_iff, getD_set_of_findIdx _ hj]
    constructor
    · rintro ⟨hlen, ahead⟩
      exact ⟨_, if_pos hlen, ahead⟩
    · rintro ⟨bytes, hbytes, ahead⟩
      split_ifs at hbytes with hlen
      obtain rfl := Option.some.inj hbytes
      exact ⟨hlen, ahead⟩

theorem wsInputFilterDataframe_eq_none_iff (hpos : 0 < readLen) :
    wsInputFilterDataframe storage ws fd readBuffer readLen = none ↔
      (wsChannelIsEncoded storage fd readBuffer).1 = true ∧ 0 ≤ wsBufferSizeLeft ws readLen ∧
        ∃ bytes, loopBytes ws fd readBuffer readLen = some bytes ∧ EmptyFrameAhead bytes := by
  by_cases henc : (wsChannelIsEncoded storage fd readBuffer).1 = true
  swap
  · rw [wsInputFilterDataframe_raw ws readLen (Bool.eq_false_of_not_eq_true henc)]
    simp [henc]
  by_cases hroom : wsBufferSizeLeft ws readLen < 0
  · simp [filter_full henc hroom, not_le_of_gt hroom]
  simp only [henc, not_lt.1 hroom, true_and]
  cases hi : ws.items.findIdx? (fun item => item.fd == fd) with
  | some i => exact filter_slot_eq_none_iff henc hroom hpos hi
  | none => exact filter_new_eq_none_iff henc hroom hi

end Filter

theorem encodes_iff {storage : Storage} (readBuffer : List UInt8)
    (hfull : ¬ (storage.numberOfClients ≥ maxNumberOfConnections ∨ fd.toInt > maxNumberOfConnections)) :
    (wsChannelIsEncoded (sessionStorageAddNew storage fd).2 fd readBuffer).1 = true ↔
      Encodes storage fd readBuffer := by
  have hentry : sessionStorageGet (sessionStorageAddNew storage fd).2 fd =
      if 0 < (sessionStorageGet storage fd).toInt then sessionStorageGet storage fd else fd := by
    rw [sessionStorageAddNew, if_neg hfull]
    split_ifs with hin hin' hin'
    · rfl
    · exact absurd hin hin'
    · exact absurd hin' hin
    · exact Function.update_self _ _ _
  rw [Encodes, ← hentry, wsChannelIsEncoded]
  by_cases hmask : readBuffer.getD 1 0 &&& 0x80 ≠ 0
  · rw [if_pos hmask]
    exact iff_of_true rfl (.inl hmask)
  · rw [if_neg hmask, or_iff_right hmask]
    rfl

theorem doUseFd_eq_none_iff :
    doUseFd limit now srv fd readBuffer receivedLength = none ↔
      1 ≤ receivedLength ∧ ¬ TableFull srv fd ∧ Endless srv fd readBuffer receivedLength.toNat := by
  by_cases hdata : 1 ≤ receivedLength
  swap
  · simp [doUseFd, show receivedLength < 1 by omega, hdata]
  by_cases hfull : TableFull srv fd
  · have hadd : sessionStorageAddNew (sessionStorageLock srv.storage) fd =
        (.maxSessionNumberExceeded, sessionStorageLock srv.storage) := if_pos hfull
    simp [doUseFd, show ¬ receivedLength < 1 by omega, hadd, hfull]
  have hfilter := @wsInputFilterDataframe_eq_none_iff fd (sessionStorageAddNew (sessionStorageLock srv.storage) fd).2 srv.ws
    readBuffer receivedLength.toNat (by omega)
  rw [@encodes_iff fd (sessionStorageLock srv.storage) readBuffer hfull] at hfilter
  rw [doUseFd_of_taken limit now readBuffer hdata hfull, Option.map_eq_none_iff, filterInput]
  simp only [hdata, hfull, not_false_eq_true, true_and]
  refine Iff.trans ?_ hfilter
  cases h : wsInputFilterDataframe (sessionStorageAddNew (sessionStorageLock srv.storage) fd).2 srv.ws fd readBuffer
    receivedLength.toNat <;> simp

def Hangs (srv : Server) : Event → Prop
  | .read _ fd readBuffer receivedLength =>
      1 ≤ receivedLength ∧ ¬ TableFull srv fd ∧ Endless srv fd readBuffer receivedLength.toNat
  | _ => False

/-- The step comes back and leaves the session mutex as it was. -/
def Releases (srv : Server) (after : Option Server) : Prop :=
  ∃ srv', after = some srv' ∧ srv'.storage.locks = srv.storage.locks

theorem loopStep_eq_none_iff (limit : ℕ) {e : Event} : loopStep limit srv e = none ↔ Hangs srv e := by
  cases e with
  | read now fd readBuffer receivedLength => exact doUseFd_eq_none_iff
  | close now fd => simp [loopStep, Hangs]
  | drop fd => simp [loopStep, Hangs]

theorem releases_loopStep_iff (limit : ℕ) (srv : Server) (e : Event) :
    Releases srv (loopStep limit srv e) ↔ ¬ (Refused srv e ∨ Hangs srv e) := by
  rw [← loopStep_eq_none_iff limit]
  cases h : loopStep limit srv e with
  | none => simp [Releases]
  | some srv' =>
    have hlocks := loopStep_locks h
    by_cases href : Refused srv e <;> simp [Releases, href] at hlocks ⊢ <;> omega

theorem releases_exec_iff {events : List Event} : Releases srv (exec (loopStep limit) srv events) ↔
    ∀ before e after mid, events = before ++ e :: after → exec (loopStep limit) srv before = some mid →
      ¬ (Refused mid e ∨ Hangs mid e) := by
  induction events generalizing srv with
  | nil => simp [Releases, exec]
  | cons e es ih =>
    constructor
    · rintro ⟨srv', hexec, hlocks⟩ before e' after mid hsplit hbefore
      obtain ⟨next, hstep, hrest⟩ := Option.bind_eq_some_iff.mp hexec
      have hle := exec_locks_le hrest
      have hge := exec_locks_le (exec_cons hstep [])
      have hsame : next.storage.locks = srv.storage.locks := by omega
      cases before with
      | nil =>
        obtain ⟨rfl, rfl⟩ := List.cons.inj hsplit
        obtain rfl := Option.some.inj hbefore
        exact (releases_loopStep_iff limit srv e).1 ⟨next, hstep, hsame⟩
      | cons b before =>
        obtain ⟨rfl, rfl⟩ := List.cons.inj hsplit
        have hmid := (exec_cons hstep before).symm.trans hbefore
        exact ih.1 ⟨srv', hrest, by omega⟩ before e' after mid rfl hmid
    · intro h
      obtain ⟨next, hstep, hsame⟩ := (releases_loopStep_iff limit srv e).2 (h [] e es srv rfl rfl)
      obtain ⟨srv', hrest, hlocks⟩ := ih.2 fun before e' after mid hsplit hmid =>
        h (e :: before) e' after mid (congrArg (e :: ·) hsplit) ((exec_cons hstep before).trans hmid)
      exact ⟨srv', (exec_cons hstep es).trans hrest, by omega⟩

/-- A read gives the session mutex back exactly when the table takes its connection and no empty frame
keeps it in the decode loop, a writer's teardown always does; a run gives it back exactly when all its
reads do. -/
theorem lock_released_iff (limit : ℕ) :
    (∀ now srv fd readBuffer receivedLength,
      Releases srv (doUseFd limit now srv fd readBuffer receivedLength) ↔
        ¬ (1 ≤ receivedLength ∧ (TableFull srv fd ∨ Endless srv fd readBuffer receivedLength.toNat))) ∧
    (∀ srv fd, Releases srv (some (wCloseConnection srv fd))) ∧
    ∀ srv events, Releases srv (exec (loopStep limit) srv events) ↔
      ∀ before e after mid, events = before ++ e :: after → exec (loopStep limit) srv before = some mid →
        ¬ (Refused mid e ∨ Hangs mid e) := by
  refine ⟨?_, fun srv fd => ⟨_, rfl, (tornDown_wCloseConnection srv fd).locks⟩, fun _ _ => releases_exec_iff⟩
  intro now srv fd readBuffer receivedLength
  have hstep := releases_loopStep_iff limit srv (.read now fd readBuffer receivedLength)
  refine hstep.trans (not_congr ?_)
  simp only [Refused, Hangs, Event.isData, Event.fd, decide_eq_true_eq]
  tauto

def serverStart : Server := ⟨sessionStorageInit, wsInitBuffer, [], []⟩

theorem lock_released_iff_send : Releases serverStart (doUseFd 10 0 serverStart 5 (lit "SEND") 4) := by
  refine ((lock_released_iff 10).1 0 serverStart 5 (lit "SEND") 4).2 ?_
  rintro ⟨-, hfull | ⟨hencodes, -⟩⟩
  · exact absurd hfull (by decide)
  · exact absurd hencodes (by unfold Encodes; decide)

def fullServer : Server :=
  { serverStart with storage :=
      ⟨fun i => if i ≤ maxNumberOfConnections then BitVec.ofNat 32 i else 0, maxNumberOfConnections, 0⟩ }

theorem fullServer_stays_locked :
    fullServer.storage.locks = 0 ∧
    (doUseFd 10 0 fullServer 5 (lit "SEND") 4).map (·.storage.locks) = some 1 := by
  decide +kernel

theorem admittedStorage_spec {storage : Storage} (readBuffer : List UInt8)
    (hfull : ¬ (storage.numberOfClients ≥ maxNumberOfConnections ∨ fd.toInt > maxNumberOfConnections)) :
    ∃ entry, (entry = fd ∨ entry = sessionSetEncoded fd ∨
        entry = sessionStorageGet storage fd ∧ 0 < entry.toInt) ∧
      (admittedStorage storage fd readBuffer).clients = Function.update storage.clients fd.toNat entry ∧
      (admittedStorage storage fd readBuffer).numberOfClients =
        storage.numberOfClients + if 0 < (sessionStorageGet storage fd).toInt then 0 else 1 := by
  by_cases hin : 0 < (sessionStorageGet storage fd).toInt
  · have hadd : sessionStorageAddNew storage fd = (.sessionIsInUse, storage) :=
      (if_neg hfull).trans (if_pos hin)
    rw [admittedStorage, hadd, if_pos hin, add_zero]
    unfold wsChannelIsEncoded
    split_ifs
    · exact ⟨_, .inr (.inl rfl), rfl, rfl⟩
    · exact ⟨_, .inr (.inr ⟨rfl, hin⟩), (Function.update_eq_self _ _).symm, rfl⟩
  · have hadd : sessionStorageAddNew storage fd = (.added fd, { storage with
        clients := Function.update storage.clients fd.toNat fd
        numberOfClients := storage.numberOfClients + 1 }) := (if_neg hfull).trans (if_neg hin)
    rw [admittedStorage, hadd, if_neg hin]
    unfold wsChannelIsEncoded
    split_ifs
    · exact ⟨_, .inr (.inl rfl), Function.update_idem _ _ _, rfl⟩
    · exact ⟨_, .inl rfl, rfl, rfl⟩

theorem sessionSetEncoded_ne_zero (fd : Fd) : sessionSetEncoded fd ≠ 0 := by
  intro h
  have henc := sessionIsEncoded_setEncoded fd
  rw [h] at henc
  exact absurd henc (by decide)

theorem toNat_ne {fd g : Fd} (h : g ≠ fd) : g.toNat ≠ fd.toNat := fun he => h (BitVec.eq_of_toNat_eq he)

inductive Outcome (e : Event) (srv srv' : Server) : Prop
  | stays (data : e.isData = true) (closed : srv'.closed = srv.closed) (after : InTable srv' e.fd)
  | absent (data : e.isData = false) (before : ¬ InTable srv e.fd) (closed : srv'.closed = srv.closed)
      (after : ¬ InTable srv' e.fd)
  | closes (before : InTable srv e.fd ∨ e.isData = true) (closed : srv'.closed = srv.closed ++ [e.fd])
      (after : ¬ InTable srv' e.fd)

def OthersStay (fd : Fd) (srv srv' : Server) : Prop :=
  ∀ g, g ≠ fd → sessionStorageGet srv'.storage g = sessionStorageGet srv.storage g

theorem OthersStay.trans {mid : Server} (h : OthersStay fd srv mid) (h' : OthersStay fd mid srv') :
    OthersStay fd srv srv' := fun g hg => (h' g hg).trans (h g hg)

theorem TornDown.others (h : TornDown fd srv srv') : OthersStay fd srv srv' := by
  intro g hg
  rcases h with ⟨-, hstorage, -⟩ | ⟨-, hstorage, -⟩
  · rw [hstorage]
  · rw [hstorage]
    exact Function.update_of_ne (toNat_ne hg) _ _

theorem TornDown.after (h : TornDown fd srv srv') : ¬ InTable srv' fd := by
  unfold InTable
  rcases h with ⟨hno, hstorage, -⟩ | ⟨-, hstorage, -⟩
  · rwa [hstorage]
  · rw [hstorage]
    exact not_not_intro (Function.update_self _ _ _)

theorem TornDown.outcome {e : Event} (h : TornDown fd srv srv') (hfd : e.fd = fd) (hdata : e.isData = false) :
    Outcome e srv srv' := by
  have hafter := h.after
  subst hfd
  rcases h with ⟨hno, -, hclosed⟩ | ⟨hin, -, hclosed⟩
  · exact .absent hdata hno hclosed hafter
  · exact .closes (.inl hin) hclosed hafter

theorem admitted {mid : Server} (h0 : fd ≠ 0) (hfull : ¬ TableFull srv fd)
    (hmid : mid.storage = admittedStorage srv.storage fd readBuffer) : OthersStay fd srv mid ∧ InTable mid fd := by
  obtain ⟨entry, hentry, hclients, -⟩ := admittedStorage_spec readBuffer hfull
  rw [← hmid] at hclients
  constructor
  · intro g hg
    rw [sessionStorageGet, hclients, Function.update_of_ne (toNat_ne hg)]
    rfl
  · rw [InTable, sessionStorageGet, hclients, Function.update_self]
    rcases hentry with rfl | rfl | ⟨-, hpos⟩
    · exact h0
    · exact sessionSetEncoded_ne_zero fd
    · rintro rfl
      exact absurd hpos (by decide)

/-- Everything a step that is not turned away can do. -/
theorem step_outcome {e : Event} (h : loopStep limit srv e = some srv') (href : ¬ Refused srv e)
    (h0 : e.isData = true → e.fd ≠ 0) : OthersStay e.fd srv srv' ∧ Outcome e srv srv' := by
  cases e with
  | read now fd readBuffer receivedLength =>
    obtain ⟨hend, htorn⟩ | ⟨hdata, hfull, -⟩ | ⟨hdata, hfull, mid, hstorage, hclosed, hmid⟩ := doUseFd_cases h
    · exact ⟨htorn.others, htorn.outcome rfl (by simpa [Event.isData] using hend)⟩
    · exact absurd ⟨by simpa [Event.isData] using hdata, hfull⟩ href
    · have hd : (Event.read now fd readBuffer receivedLength).isData = true := by
        simpa [Event.isData] using hdata
      obtain ⟨hothers, hin⟩ := admitted (h0 hd) hfull hstorage
      rcases hmid with rfl | htorn
      · exact ⟨hothers, .stays hd hclosed hin⟩
      · refine ⟨hothers.trans htorn.others, ?_⟩
        have hafter := htorn.after
        rcases htorn with ⟨hno, -⟩ | ⟨-, -, hclosed'⟩
        · exact absurd hin hno
        · exact .closes (.inr hd) (by rw [hclosed', hclosed]; rfl) hafter
  | close now fd =>
    obtain rfl := Option.some.inj h
    have htorn := tornDown_closeConnection limit now srv fd
    exact ⟨htorn.others, htorn.outcome rfl rfl⟩
  | drop fd =>
    obtain rfl := Option.some.inj h
    have htorn := tornDown_wCloseConnection srv fd
    exact ⟨htorn.others, htorn.outcome rfl rfl⟩

end StompBroker.EpollLoop
