import StompBroker.BufferAccount
import StompBroker.FrameCodec
import StompBroker.EpollLoop

/-! What the websocket filter leaves in the slot of a connection. The loop takes complete text frames
off the front; what it stops at stays, whether it is the start of a frame or not. -/
namespace StompBroker.HeldFrames
open CString SessionStorage WsBuffer Dataframe DecodeLoop TextFrame Chunking AcceptEpoll BufferAccount FrameCodec
open EpollLoop (TableFull newlyClosed newlyClosed_of_same doUseFd_of_taken)
open Relation (ReflTransGen)

/-- One turn of the loop: the complete text frame at the front comes off as the decoder takes it. -/
def TakesFrame (r rest : List UInt8) : Prop :=
  ∃ n header mask, minDataFrameSize < r.length ∧ textFront r = some (n, header, mask) ∧ 0 < n ∧
    n ≤ wsDataFrameMaxLength ∧ n + header ≤ r.length ∧ rest = r.drop (skipLen n + n)

/-- Bytes at which the loop stops, with the negative result of the header parser if there is one. -/
inductive StopsAt (r : List UInt8) : Option WsStatus → Prop
  | short (few : r.length ≤ minDataFrameSize) : StopsAt r none
  | part {n header : ℕ} {mask : List UInt8} (front : textFront r = some (n, header, mask))
      (part : r.length < n + header) : StopsAt r none
  | large {n header : ℕ} {mask : List UInt8} (front : textFront r = some (n, header, mask))
      (large : wsDataFrameMaxLength < n) : StopsAt r (some .tooLargeDataframe)
  | other (long : minDataFrameSize < r.length) (front : textFront r = none) (text : opCode r ≠ 1) :
      StopsAt r (some (if opCode r = 8 then .opcodeClientDisconnect else .opcodeUnhandled))

theorem takesFrame_rightUnique : Relator.RightUnique TakesFrame := by
  rintro r a b ⟨n, header, mask, -, ht, -, -, -, rfl⟩ ⟨n', header', mask', -, ht', -, -, -, rfl⟩
  rw [ht, Option.some.injEq, Prod.mk.injEq] at ht'
  rw [ht'.1]

variable {r rest : List UInt8} {status : Option WsStatus}

theorem StopsAt.not_takes (h : StopsAt r status) : ¬ TakesFrame r rest := by
  rintro ⟨n, header, mask, hlong, ht, -, hmax, hfull, -⟩
  cases h with
  | short few => omega
  | part front part =>
    rw [front, Option.some.injEq, Prod.mk.injEq, Prod.mk.injEq] at ht
    omega
  | large front large =>
    rw [front, Option.some.injEq, Prod.mk.injEq] at ht
    omega
  | other _ front _ =>
    rw [front] at ht
    cases ht

theorem eq_of_stopsAt {a b : List UInt8} (ha : ReflTransGen TakesFrame r a) (hb : ReflTransGen TakesFrame r b)
    (hsa : StopsAt a status) (hsb : ∀ rest, ¬ TakesFrame b rest) : b = a := by
  have hstuck : ∀ {x y : List UInt8}, (∀ rest, ¬ TakesFrame x rest) → ReflTransGen TakesFrame x y → y = x := by
    intro x y hx h
    rcases ReflTransGen.cases_head h with rfl | ⟨z, hz, -⟩
    · rfl
    · exact absurd hz (hx z)
  rcases ReflTransGen.total_of_right_unique takesFrame_rightUnique ha hb with h | h
  · exact hstuck (fun rest => hsa.not_takes) h
  · exact (hstuck hsb h).symm

/-- The loop, wherever it is entered, goes from complete text frame to complete text frame. -/
theorem decodeLoop_stops {fuel : ℕ} {s t : LoopState} (h : decodeLoop fuel s = some t)
    (hlen : s.buff.frameLen = 0) (hfull : s.fullFrameLen.getLeft? = none) :
    ReflTransGen TakesFrame (s.buff.received.getD []) (t.buff.received.getD []) ∧
      StopsAt (t.buff.received.getD []) t.fullFrameLen.getLeft? := by
  induction fuel generalizing s with
  | zero => cases h
  | succ fuel ih =>
    by_cases hlong : s.buff.receivedLen > minDataFrameSize
    · obtain ⟨r, hr⟩ := atFront_of_long hlen hlong
      cases ht : textFront r with
      | none =>
        rw [decodeLoop_leave (iteration_of_not_text hr ht)] at h
        obtain rfl := Option.some.inj h
        rw [hr.received]
        exact ⟨.refl, .other hr.long ht (readHeaders_of_not_text hr.received hr.long ht).1⟩
      | some front =>
        obtain ⟨n, header, mask⟩ := front
        by_cases hmax : wsDataFrameMaxLength < n
        · rw [decodeLoop_leave (iteration_of_large hr ht hmax)] at h
          obtain rfl := Option.some.inj h
          dsimp only
          rw [hr.received]
          exact ⟨.refl, .large ht hmax⟩
        by_cases hpart : r.length < n + header
        · rw [decodeLoop_leave (iteration_of_part hr ht (by omega) hpart)] at h
          obtain rfl := Option.some.inj h
          dsimp only
          rw [hr.received]
          exact ⟨.refl, .part ht hpart⟩
        rcases Nat.eq_zero_or_pos n with rfl | hpos
        · rw [decodeLoop_of_empty hr ht] at h
          cases h
        · rw [decodeLoop_again (iteration_of_frame hr ht hpos (by omega) (by omega))] at h
          obtain ⟨hreach, hstop⟩ := ih h rfl rfl
          refine ⟨.head ?_ hreach, hstop⟩
          rw [hr.received]
          exact ⟨n, header, mask, hr.long, ht, hpos, Nat.le_of_not_lt hmax, Nat.le_of_not_lt hpart,
            remaining_getD r _⟩
    · rw [decodeLoop_leave (iteration_of_done fun hc => hlong hc.1)] at h
      obtain rfl := Option.some.inj h
      rw [hfull]
      exact ⟨.refl, .short (Nat.le_of_not_lt hlong)⟩

def Answers : Option WsStatus → WsStatus → Prop
  | some negative, status => status = negative
  | none, status => status = .completeDataframe ∨ status = .incompleteDataframe

theorem decodeBuffered_stops {storage : Storage} {ws : Buffer} {fd : Fd} {mask bytes : List UInt8}
    {before after : List BufferItem} {res : FilterResult} (h0 : fd ≠ 0)
    (hitems : ws.items = before ++ ⟨fd, mask, 0, some bytes⟩ :: after)
    (hbefore : slots before fd = []) (hafter : slots after fd = [])
    (h : decodeBuffered storage ws before.length = some res) :
    ∃ status, ReflTransGen TakesFrame bytes (buffered res.ws fd) ∧ StopsAt (buffered res.ws fd) status ∧
      Answers status res.status := by
  have hget : ws.items.getD before.length freeItem = ⟨fd, mask, 0, some bytes⟩ := by simp [hitems]
  unfold decodeBuffered at h
  rw [hget] at h
  obtain ⟨t, ht, h⟩ := Option.bind_eq_some_iff.mp h
  have hfd : t.buff.fd = fd := (drains_loop ht).fd
  obtain ⟨hreach, hstop⟩ := decodeLoop_stops ht rfl rfl
  obtain rfl := Option.some.inj h
  have hrest : buffered (if t.buff.received = none then
      wsBufferFree { ws with items := ws.items.set before.length t.buff, allocatedSize := t.allocated }
        (some before.length)
      else { ws with items := ws.items.set before.length t.buff, allocatedSize := t.allocated }) fd =
      t.buff.received.getD [] := by
    have hset : ws.items.set before.length t.buff = before ++ t.buff :: after := by simp [hitems]
    have hfree : (ws.items.set before.length t.buff).set before.length freeItem = before ++ freeItem :: after := by
      simp [hitems]
    split_ifs with hnone
    · rw [buffered_middle hfree hbefore hafter, hnone, if_neg (show freeItem.fd ≠ fd from h0.symm)]
      rfl
    · rw [buffered_middle hset hbefore hafter, if_pos hfd]
  refine ⟨t.fullFrameLen.getLeft?, ?_, ?_, ?_⟩
  · dsimp only
    rw [hrest]
    exact hreach
  · dsimp only
    rw [hrest]
    exact hstop
  · cases hfull : t.fullFrameLen with
    | inl negative => rfl
    | inr n =>
      simp only [Answers, Sum.getLeft?_inr]
      split_ifs <;> simp

section Filter
variable {inputBufferSize : BitVec 32} {b : Buffer} {c : FilterCall inputBufferSize} {res : FilterResult}

/-- A read on an encoded connection that is not refused: the filter takes text frames off the old
bytes and the read together, and leaves what it stops at. -/
theorem filter_stops (hb : Consistent b) (henc : (wsChannelIsEncoded c.storage c.fd c.buffer).1 = true)
    (h : c.result b = some res) (hroom : ¬ Refused res.status) :
    ∃ status, ReflTransGen TakesFrame (buffered b c.fd ++ c.chunk) (buffered res.ws c.fd) ∧
      StopsAt (buffered res.ws c.fd) status ∧ Answers status res.status := by
  obtain ⟨hraw, -⟩ | haway | ⟨-, before, old, mask, after, ws, he, hdecode⟩ := filter_entry hb h
  · simp [henc] at hraw
  · exact absurd haway.status hroom
  · obtain ⟨hold, hbefore, hafter⟩ := he.buffered_eq c.fd_ne_zero (hb.one_slot c.fd c.fd_ne_zero)
    rw [hold]
    exact decodeBuffered_stops c.fd_ne_zero he.entered hbefore hafter hdecode

end Filter

/-- Header and payload of the frame at the front, with any opcode and length code, masked or not. -/
def frameTotal (r : List UInt8) : ℕ :=
  let maskLen := if r.getD 1 0 &&& 0x80 ≠ 0 then 4 else 0
  if lengthCode r < 126 then 2 + maskLen + lengthCode r
  else if lengthCode r = 126 then 4 + maskLen + hostValue ((r.drop 2).take 2).reverse
  else 10 + maskLen + hostValue ((r.drop 2).take 8).reverse

/-- A complete masked text frame with payload and minimal length code. -/
def TextAtHead (r : List UInt8) : Prop :=
  ∃ first mask payload rest, first &&& 0xF = 1 ∧ mask.length = 4 ∧ 1 ≤ payload.length ∧
    payload.length < 2 ^ 64 ∧ r = wireBytes first mask payload ++ rest

def CloseAtHead (r : List UInt8) : Prop := opCode r = 8 ∧ frameTotal r ≤ r.length

def FrameAtHead (r : List UInt8) : Prop := TextAtHead r ∨ CloseAtHead r

def Nonnegative : WsStatus → Prop
  | .notADataframe | .completeDataframe | .incompleteDataframe => True
  | _ => False

theorem opCode_of_textFront {n header : ℕ} {mask : List UInt8} (h : textFront r = some (n, header, mask)) :
    opCode r = 1 := by
  match r, h with
  | b0 :: b1 :: bs, h =>
    simp only [textFront] at h
    split_ifs at h with h1
    exact h1

theorem TextAtHead.front (h : TextAtHead r) :
    ∃ n mask, textFront r = some (n, skipLen n, mask) ∧ skipLen n + n ≤ r.length := by
  obtain ⟨first, mask, payload, rest, ho, hm, -, hn, rfl⟩ := h
  refine ⟨payload.length, mask, textFront_wireBytes hm ho hn rest, ?_⟩
  rw [List.length_append, length_wireBytes hm]
  omega

theorem not_frameAtHead_of_part {n header : ℕ} {mask : List UInt8} (ht : textFront r = some (n, header, mask))
    (hpart : r.length < n + header) : ¬ FrameAtHead r := by
  rintro (htext | ⟨hclose, -⟩)
  · obtain ⟨n', mask', ht', hfull⟩ := htext.front
    rw [ht, Option.some.injEq, Prod.mk.injEq, Prod.mk.injEq] at ht'
    omega
  · rw [opCode_of_textFront ht] at hclose
    exact absurd hclose (by decide)

theorem not_takes_of_short (h : r.length ≤ minDataFrameSize) : ∀ rest, ¬ TakesFrame r rest :=
  fun _ => (StopsAt.short h).not_takes

theorem StopsAt.eq_none {answer : WsStatus} (h : StopsAt r status) (ha : Answers status answer)
    (hn : Nonnegative answer) : status = none := by
  cases h with
  | short _ => rfl
  | part _ _ => rfl
  | large _ _ =>
    rw [show answer = .tooLargeDataframe from ha] at hn
    exact hn.elim
  | other _ _ _ =>
    rw [show answer = _ from ha] at hn
    split_ifs at hn <;> exact hn.elim

section Held
variable {inputBufferSize : BitVec 32} {b : Buffer} {c : FilterCall inputBufferSize} {res : FilterResult}

/-- The filter holds no complete frame back exactly when, behind the complete text frames of the buffered
bytes, there are not sixteen bytes or fewer that start with one. -/
theorem complete_frames_held_iff (hb : Consistent b)
    (henc : (wsChannelIsEncoded c.storage c.fd c.buffer).1 = true) (h : c.result b = some res)
    (hstatus : Nonnegative res.status) :
    ¬ FrameAtHead (buffered res.ws c.fd) ↔
      ¬ ∃ rest, ReflTransGen TakesFrame (buffered b c.fd ++ c.chunk) rest ∧
        rest.length ≤ minDataFrameSize ∧ FrameAtHead rest := by
  have hroom : ¬ Refused res.status := by
    rintro (hr | hr) <;> rw [hr] at hstatus <;> exact hstatus
  obtain ⟨status, hreach, hstop, hanswer⟩ := filter_stops hb henc h hroom
  obtain rfl := hstop.eq_none hanswer hstatus
  refine not_congr ⟨fun hframe => ?_, ?_⟩
  · generalize buffered res.ws c.fd = left at hreach hstop hframe
    cases hstop with
    | short few => exact ⟨left, hreach, few, hframe⟩
    | part front part => exact absurd hframe (not_frameAtHead_of_part front part)
  · rintro ⟨rest, hrest, hfew, hframe⟩
    rwa [← eq_of_stopsAt hreach hrest hstop (not_takes_of_short hfew)]

/-- The first seven bytes of an eleven byte frame are no complete frame. -/
theorem complete_frames_held_iff_frameStart :
    ∃ res, (frameStart 5 (by decide)).result wsInitBuffer = some res ∧ res.status = .incompleteDataframe ∧
      ¬ FrameAtHead (buffered res.ws 5) := by
  have hrun : ((frameStart 5 (by decide)).result wsInitBuffer).map FilterResult.status =
      some .incompleteDataframe := by decide +kernel
  have hbytes : buffered wsInitBuffer 5 ++ (frameStart 5 (by decide)).chunk = [0x81, 0x85, 1, 2, 3, 4, 9] := by
    decide +kernel
  obtain ⟨res, hres, hstatus⟩ := Option.map_eq_some_iff.mp hrun
  refine ⟨res, hres, hstatus, (complete_frames_held_iff consistent_init (by decide) hres ?_).2 ?_⟩
  · rw [hstatus]
    trivial
  · rintro ⟨rest, hreach, -, hframe⟩
    rw [show (frameStart 5 (by decide)).fd = 5 from rfl, hbytes] at hreach
    rcases ReflTransGen.cases_head hreach with rfl | ⟨z, hz, -⟩
    · exact not_frameAtHead_of_part (show _ = some (5, 6, [1, 2, 3, 4]) by decide) (by decide) hframe
    · exact not_takes_of_short (by decide) z hz

def smallestFrame (fd : Fd) (hfd : 0 < fd.toInt) : FilterCall 0x1000000#32 :=
  { frameStart fd hfd with buffer := [0x81, 0x81, 1, 2, 3, 4, 0x40], was_read := le_rfl }

theorem smallestFrame_held :
    ∃ res, (smallestFrame 5 (by decide)).result wsInitBuffer = some res ∧ res.status = .incompleteDataframe ∧
      TextAtHead (buffered res.ws 5) := by
  have hrun : ((smallestFrame 5 (by decide)).result wsInitBuffer).map (fun res => (res.status, buffered res.ws 5)) =
      some (.incompleteDataframe, wireBytes 0x81 [1, 2, 3, 4] [0x41]) := by decide +kernel
  obtain ⟨res, hres, hpair⟩ := Option.map_eq_some_iff.mp hrun
  obtain ⟨hstatus, hbytes⟩ := Prod.mk.inj hpair
  refine ⟨res, hres, hstatus, 0x81, [1, 2, 3, 4], [0x41], [], by decide, rfl, le_rfl, by decide, ?_⟩
  rw [hbytes, List.append_nil]

end Held

def UnsupportedAtHead (r : List UInt8) : Prop := opCode r ≠ 1 ∧ opCode r ≠ 8 ∧ frameTotal r ≤ r.length

/-- A frame at the head of a connection's bytes is out of the way: the connection is closed and its slot
freed, or the frame is taken off. -/
def Unblocked (srv srv' : Server) (fd : Fd) (head : List UInt8) : Prop :=
  (fd ∈ newlyClosed srv srv' ∧ buffered srv'.ws fd = []) ∨ buffered srv'.ws fd = head.drop (frameTotal head)

theorem frameTotal_pos (r : List UInt8) : 0 < frameTotal r := by
  unfold frameTotal
  dsimp only
  split_ifs <;> omega

theorem textFront_eq_none (h : opCode r ≠ 1) : textFront r = none := by
  cases ht : textFront r with
  | none => rfl
  | some front => exact absurd (opCode_of_textFront ht) h

theorem not_takes_of_opCode (h : opCode r ≠ 1) : ∀ rest, ¬ TakesFrame r rest := by
  rintro rest ⟨n, header, mask, -, ht, -⟩
  exact h (opCode_of_textFront ht)

theorem opCode_append (h : r ≠ []) (bytes : List UInt8) : opCode (r ++ bytes) = opCode r := by
  cases r with
  | nil => exact absurd rfl h
  | cons b r => rfl

section Unsupported
variable {inputBufferSize : BitVec 32} {b : Buffer} {c : FilterCall inputBufferSize} {res : FilterResult}
  {head : List UInt8}

theorem filter_blocked (hb : Consistent b) (henc : (wsChannelIsEncoded c.storage c.fd c.buffer).1 = true)
    (h : c.result b = some res) (hroom : ¬ Refused res.status)
    (hhead : ReflTransGen TakesFrame (buffered b c.fd ++ c.chunk) head) (h1 : opCode head ≠ 1)
    (h8 : opCode head ≠ 8) :
    buffered res.ws c.fd = head ∧ (minDataFrameSize < head.length ↔ res.status = .opcodeUnhandled) := by
  obtain ⟨status, hreach, hstop, hanswer⟩ := filter_stops hb henc h hroom
  obtain rfl : head = buffered res.ws c.fd := eq_of_stopsAt hreach hhead hstop (not_takes_of_opCode h1)
  refine ⟨rfl, ?_⟩
  generalize buffered res.ws c.fd = head at hstop h1 h8
  have hnone := textFront_eq_none h1
  cases hstop with
  | short few =>
    refine iff_of_false (Nat.not_lt.2 few) fun hst => ?_
    rw [hst] at hanswer
    rcases hanswer with ha | ha <;> cases ha
  | part front _ => simp [hnone] at front
  | large front _ => simp [hnone] at front
  | other long _ _ =>
    rw [if_neg h8] at hanswer
    exact iff_of_true long hanswer

theorem encoded_of_status (h : c.result b = some res) (hstatus : res.status ≠ .notADataframe) :
    (wsChannelIsEncoded c.storage c.fd c.buffer).1 = true := by
  by_contra henc
  rw [FilterCall.result, wsInputFilterDataframe_raw b c.readLen (Bool.eq_false_of_not_eq_true henc)] at h
  exact hstatus ((Option.some.inj h) ▸ rfl)

/-- The epoll thread only logs the status. -/
theorem doUseFd_unhandled (limit : ℕ) (now : ℤ) {srv : Server} {fd : Fd} {readBuffer : List UInt8} {readLen : ℕ}
    (hpos : 1 ≤ readLen) (hfull : ¬ TableFull srv fd)
    (h : wsInputFilterDataframe (sessionStorageAddNew (sessionStorageLock srv.storage) fd).2 srv.ws fd readBuffer
      readLen = some res) (hstatus : res.status = .opcodeUnhandled) :
    ∃ srv', doUseFd limit now srv fd readBuffer readLen = some srv' ∧ srv'.ws = res.ws ∧
      srv'.closed = srv.closed := by
  rw [doUseFd_of_taken limit now readBuffer (by omega) hfull]
  simp [filterInput, h, hstatus, dropsConnection]

/-- An unsupported frame is never out of the way: the connection stays open with the frame at the head of
its bytes, and later reads on it only add to them until there is no more room. -/
theorem unsupported_frame_stays (limit : ℕ) (now : ℤ) {srv : Server} (hws : Consistent srv.ws)
    (hfull : ¬ TableFull srv c.fd)
    (hstorage : c.storage = (sessionStorageAddNew (sessionStorageLock srv.storage) c.fd).2)
    (h : c.result srv.ws = some res) (hstatus : res.status = .opcodeUnhandled)
    (hhead : ReflTransGen TakesFrame (buffered srv.ws c.fd ++ c.chunk) head) (hframe : UnsupportedAtHead head) :
    ∃ srv', doUseFd limit now srv c.fd c.buffer c.readLen = some srv' ∧ ¬ Unblocked srv srv' c.fd head ∧
      ∀ (c' : FilterCall inputBufferSize) res', c'.fd = c.fd →
        (wsChannelIsEncoded c'.storage c'.fd c'.buffer).1 = true → c'.result srv'.ws = some res' →
        ¬ Refused res'.status → res'.status = .opcodeUnhandled ∧ buffered res'.ws c.fd = head ++ c'.chunk := by
  obtain ⟨h1, h8, -⟩ := hframe
  have hroom : ¬ Refused res.status := by
    rw [hstatus]
    simp [Refused]
  have henc := encoded_of_status h (by rw [hstatus]; decide)
  obtain ⟨hleft, hiff⟩ := filter_blocked hws henc h hroom hhead h1 h8
  have hlong := hiff.2 hstatus
  have hne : head ≠ [] := by
    rintro rfl
    simp at hlong
  have hfilter := h
  rw [FilterCall.result, hstorage] at hfilter
  obtain ⟨srv', hread, hws', hclosed⟩ := doUseFd_unhandled limit now c.readLen_pos hfull hfilter hstatus
  refine ⟨srv', hread, ?_, ?_⟩
  · have hnone := newlyClosed_of_same hclosed
    rintro (⟨hin, -⟩ | hdrop)
    · simp [hnone] at hin
    · have hlen := congrArg List.length hdrop
      have hpos := frameTotal_pos head
      rw [hws', hleft, List.length_drop] at hlen
      omega
  · intro c' res' hfd henc' h' hroom'
    have hop : opCode (head ++ c'.chunk) = opCode head := opCode_append hne _
    rw [hws'] at h'
    have hreach : ReflTransGen TakesFrame (buffered res.ws c'.fd ++ c'.chunk) (head ++ c'.chunk) := by
      rw [hfd, hleft]
    obtain ⟨hleft', hiff'⟩ := filter_blocked (consistent_filter hws h) henc' h' hroom' hreach
      (by rwa [hop]) (by rwa [hop])
    refine ⟨hiff'.1 ?_, by rw [← hfd, hleft']⟩
    rw [List.length_append]
    omega

def ping : List UInt8 := [0x89, 0x8B, 1, 2, 3, 4, 0, 0, 0, 0, 0, 0, 0, 0, 0, 0, 0]

def pingCall (fd : Fd) (hfd : 0 < fd.toInt) : FilterCall 0x1000000#32 :=
  ⟨(sessionStorageAddNew (sessionStorageLock encodedFive.storage) fd).2, fd, ping, 17, hfd, by decide,
    by decide, by decide⟩

theorem unsupported_frame_stays_ping :
    ∃ srv', doUseFd 10 0 encodedFive 5 ping 17 = some srv' ∧ ¬ Unblocked encodedFive srv' 5 ping := by
  have hrun : ((pingCall 5 (by decide)).result encodedFive.ws).map FilterResult.status = some .opcodeUnhandled := by
    decide +kernel
  have hbytes : buffered encodedFive.ws 5 ++ (pingCall 5 (by decide)).chunk = ping := by decide +kernel
  have hreach : ReflTransGen TakesFrame (buffered encodedFive.ws 5 ++ (pingCall 5 (by decide)).chunk) ping := by
    rw [hbytes]
  obtain ⟨res, hres, hstatus⟩ := Option.map_eq_some_iff.mp hrun
  obtain ⟨srv', hread, hblocked, -⟩ := @unsupported_frame_stays _ (pingCall 5 (by decide)) res ping 10 0 encodedFive
    consistent_init (by decide) rfl hres hstatus hreach ⟨by decide, by decide, by decide⟩
  exact ⟨srv', hread, hblocked⟩

/-- The connection stays open with the ping in its slot, and a text that follows is not queued. -/
theorem ping_blocks_connection :
    (doUseFd 10 0 encodedFive 5 ping 17).map (fun srv => (srv.closed, buffered srv.ws 5)) = some ([], ping) ∧
    ((doUseFd 10 0 encodedFive 5 ping 17).bind fun srv =>
        doUseFd 10 0 srv 5 connectFrame.bytes connectFrame.bytes.length).map
      (fun srv => (srv.closed, srv.inputQueue.length, buffered srv.ws 5)) =
        some ([], 0, ping ++ connectFrame.bytes) := by
  decide +kernel

end Unsupported

end StompBroker.HeldFrames
