import StompBroker.TextFrame
import StompBroker.AcceptEpoll

/-! Reads of any size on any number of encoded connections: the websocket filter reassembles
each connection's frames, and the input queue receives each text once and in order. -/
namespace StompBroker.Chunking
open CString SessionStorage Message WsBuffer Dataframe DecodeLoop Reassembly TextFrame AcceptEpoll
open TransitionSystem

def slots (items : List BufferItem) (fd : Fd) : List BufferItem := items.filter fun x => x.fd == fd

def FreeSlots (items : List BufferItem) : Prop := ∀ item ∈ items, item.fd = 0 → item = freeItem

/-- One slot holds the pending bytes of a descriptor; no slot when there are none. -/
def Holds (items : List BufferItem) (fd : Fd) (pending : List UInt8) : Prop :=
  if pending = [] then slots items fd = []
  else ∃ mask frameLen, slots items fd = [⟨fd, mask, frameLen, some pending⟩]

theorem slots_middle (before : List BufferItem) (item : BufferItem) (after : List BufferItem) (fd : Fd) :
    slots (before ++ item :: after) fd =
      slots before fd ++ (if item.fd = fd then [item] else []) ++ slots after fd := by
  by_cases h : item.fd = fd <;> simp [slots, h]

theorem split_of_findIdx? {α : Type*} {p : α → Bool} {l : List α} {i : ℕ}
    (h : l.findIdx? p = some i) :
    ∃ before x after, l = before ++ x :: after ∧ before.length = i ∧ p x = true := by
  obtain ⟨hi, hp, -⟩ := List.findIdx?_eq_some_iff_getElem.mp h
  refine ⟨l.take i, l[i], l.drop (i + 1), ?_, by simp; omega, hp⟩
  rw [← List.drop_eq_getElem_cons hi, List.take_append_drop]

theorem decodeBuffered_frames (storage : Storage) (ws : Buffer) {before after : List BufferItem}
    {fd : Fd} {mask bytes q : List UInt8} {gs hs : List Frame}
    (hitems : ws.items = before ++ ⟨fd, mask, 0, some bytes⟩ :: after) (hne : bytes ≠ [])
    (hb : bytes = encodeAll Frame.bytes gs ++ q) (hq : Pending Frame.bytes hs q) :
    ∃ r item, decodeBuffered storage ws before.length = some r ∧ r.storage = storage ∧
      (r.status = .completeDataframe ∨ r.status = .incompleteDataframe) ∧
      r.out = gathered none gs ∧ r.decodedBufLen = ((gathered none gs).getD []).length - 1 ∧
      r.ws.items = before ++ item :: after ∧
      (if q = [] then item = freeItem else item.fd = fd ∧ item.received = some q) := by
  have hget : ws.items.getD before.length freeItem = ⟨fd, mask, 0, some bytes⟩ := by
    simp [hitems]
  have hfuel : gs.length < BufferItem.receivedLen ⟨fd, mask, 0, some bytes⟩ + 1 := by
    have := length_le_length_encodeAll Frame.bytes_ne_nil gs
    simp only [BufferItem.receivedLen, Option.getD_some, hb, List.length_append]
    omega
  obtain ⟨t, ht, hfd, hrec, hag, n, hn⟩ := decodeLoop_frames
    (s := ⟨⟨fd, mask, 0, some bytes⟩, ws.allocatedSize, none, .inr 0⟩) rfl
    (by rw [blockOf, ← hb, if_neg hne]) hq ⟨0, rfl⟩ hfuel
  unfold decodeBuffered
  simp only [hget, ht, Option.bind_eq_bind, Option.bind_some, hn, hag]
  refine ⟨_, if q = [] then freeItem else t.buff, rfl, rfl, ?_, rfl, ?_, ?_, ?_⟩
  · dsimp only
    split_ifs <;> simp
  · simp [LoopState.agDecodedDataLen, hag]
  · by_cases hnil : q = []
    · simp [hrec, blockOf, hnil, hitems, wsBufferFree]
    · simp [hrec, blockOf, hnil, hitems]
  · split_ifs with hnil
    · rfl
    · exact ⟨hfd, by rw [hrec, blockOf, if_neg hnil]⟩

def Encoded (storage : Storage) (fd : Fd) : Prop :=
  sessionStorageGet storage fd = sessionSetEncoded fd

theorem wsChannelIsEncoded_of_encoded {storage : Storage} {fd : Fd} (h : Encoded storage fd)
    (buffer : List UInt8) : wsChannelIsEncoded storage fd buffer = (true, storage) := by
  unfold wsChannelIsEncoded
  split_ifs
  · have hu : Function.update storage.clients fd.toNat (fd ||| fdIsEncodedMask) = storage.clients := by
      rw [Function.update_eq_self_iff]
      exact h.symm
    rw [sessionStorageSetEncoded, hu]
  · rw [sessionStorageIsEncoded, show storage.clients fd.toNat = sessionSetEncoded fd from h]
    have := sessionIsEncoded_setEncoded fd
    simp only [sessionIsEncoded] at this
    rw [this]

theorem findIdx?_eq_none_iff_slots {items : List BufferItem} {fd : Fd} :
    items.findIdx? (fun item => item.fd == fd) = none ↔ slots items fd = [] := by
  rw [List.findIdx?_eq_none_iff, slots, List.filter_eq_nil_iff]
  simp

theorem holds_of_replaced {before after : List BufferItem} {item : BufferItem} {fd : Fd}
    {q : List UInt8} (h0 : fd ≠ 0) (hb : slots before fd = []) (ha : slots after fd = [])
    (hitem : if q = [] then item = freeItem else item.fd = fd ∧ item.received = some q) :
    Holds (before ++ item :: after) fd q := by
  unfold Holds
  rw [slots_middle, hb, ha]
  split_ifs at hitem ⊢ with hq hfd hfd
  · rw [hitem] at hfd
    exact absurd hfd.symm h0
  · rfl
  · obtain ⟨rfl, hr⟩ := hitem
    refine ⟨item.mask, item.frameLen, ?_⟩
    rw [← hr]
    rfl
  · exact absurd hitem.1 hfd

theorem slots_replaced {before after : List BufferItem} {old item : BufferItem} {fd g : Fd}
    {q : List UInt8} (hg : g ≠ fd) (hg0 : g ≠ 0) (hold : old.fd = fd ∨ old.fd = 0)
    (hitem : if q = [] then item = freeItem else item.fd = fd ∧ item.received = some q) :
    slots (before ++ item :: after) g = slots (before ++ old :: after) g := by
  have h1 : old.fd ≠ g := by
    rcases hold with h | h <;> rw [h]
    · exact hg.symm
    · exact hg0.symm
  have h2 : item.fd ≠ g := by
    split_ifs at hitem
    · rw [hitem]
      exact hg0.symm
    · rw [hitem.1]
      exact hg.symm
  simp [slots_middle, h1, h2]

theorem freeSlots_replaced {before after : List BufferItem} {old item : BufferItem} {fd : Fd}
    {q : List UInt8} (h0 : fd ≠ 0) (h : FreeSlots (before ++ old :: after))
    (hitem : if q = [] then item = freeItem else item.fd = fd ∧ item.received = some q) :
    FreeSlots (before ++ item :: after) := by
  intro x hx hx0
  simp only [List.mem_append, List.mem_cons] at hx
  rcases hx with hx | rfl | hx
  · exact h x (by simp [hx]) hx0
  · split_ifs at hitem
    · exact hitem
    · exact absurd (hitem.1.symm.trans hx0) h0
  · exact h x (by simp [hx]) hx0

/-- What a call of the filter on an encoded connection has done when it was not refused for
lack of room. -/
structure Reassembled (ws : Buffer) (fd : Fd) (gs : List Frame) (q : List UInt8)
    (r : FilterResult) : Prop where
  status : r.status = .completeDataframe ∨ r.status = .incompleteDataframe
  out : r.out = gathered none gs
  decodedBufLen : r.decodedBufLen = ((gathered none gs).getD []).length - 1
  free : FreeSlots r.ws.items
  holds : Holds r.ws.items fd q
  others : ∀ g, g ≠ fd → g ≠ 0 → slots r.ws.items g = slots ws.items g

theorem reassembled_of_slot (storage : Storage) (ws' : Buffer) {ws : Buffer} {before after : List BufferItem}
    {old : BufferItem} {fd : Fd} {mask bytes q : List UInt8} {gs hs : List Frame} (h0 : fd ≠ 0)
    (hfree : FreeSlots ws.items) (hitems : ws.items = before ++ old :: after)
    (hold : old.fd = fd ∨ old.fd = 0) (hbefore : slots before fd = []) (hafter : slots after fd = [])
    (hitems' : ws'.items = before ++ ⟨fd, mask, 0, some bytes⟩ :: after) (hne : bytes ≠ [])
    (hb : bytes = encodeAll Frame.bytes gs ++ q) (hq : Pending Frame.bytes hs q) :
    ∃ r, decodeBuffered storage ws' before.length = some r ∧ r.storage = storage ∧
      Reassembled ws fd gs q r := by
  obtain ⟨r, item, hr, hst, hstatus, hout, hlen, hri, hitem⟩ :=
    decodeBuffered_frames storage ws' hitems' hne hb hq
  refine ⟨r, hr, hst, hstatus, hout, hlen, ?_, ?_, ?_⟩
  · rw [hri]
    exact freeSlots_replaced h0 (hitems ▸ hfree) hitem
  · rw [hri]
    exact holds_of_replaced h0 hbefore hafter hitem
  · intro g hg hg0
    rw [hri, hitems]
    exact slots_replaced hg hg0 hold hitem

/-- The read stands behind the bytes of its slot, in a table that is `ws` otherwise. -/
structure Entered (ws : Buffer) (fd : Fd) (chunk : List UInt8) (before : List BufferItem) (old : BufferItem)
    (mask : List UInt8) (after : List BufferItem) (ws' : Buffer) : Prop where
  items : ws.items = before ++ old :: after
  slot : old.fd = fd ∨ old = freeItem ∧ slots ws.items fd = []
  entered : ws'.items = before ++ ⟨fd, mask, 0, some (old.received.getD [] ++ chunk)⟩ :: after
  allocated : ws'.allocatedSize = ws.allocatedSize + BitVec.ofNat 64 chunk.length

/-- The filter turned a read away; the table is as it was, or the slot of the descriptor is free. -/
structure TurnedAway (storage : Storage) (ws : Buffer) (fd : Fd) (r : FilterResult) : Prop where
  storage : r.storage = storage
  status : r.status = .bufferExceededMax ∨ r.status = .bufferOutOfSlots
  table : (r.ws.items = ws.items ∧ r.ws.allocatedSize = ws.allocatedSize) ∨
    ∃ before old after, ws.items = before ++ old :: after ∧ old.fd = fd ∧
      r.ws.items = before ++ freeItem :: after ∧
      r.ws.allocatedSize = ws.allocatedSize - BitVec.ofNat 64 old.receivedLen

theorem wsInputFilterDataframe_raw {storage : Storage} {fd : Fd} {buffer : List UInt8} (ws : Buffer) (readLen : ℕ)
    (h : (wsChannelIsEncoded storage fd buffer).1 = false) :
    wsInputFilterDataframe storage ws fd buffer readLen =
      some ⟨.notADataframe, none, 0, (wsChannelIsEncoded storage fd buffer).2, ws⟩ := by
  unfold wsInputFilterDataframe
  dsimp only
  rw [if_neg (by simp [h])]

/-- The ways of an encoded read through the filter: it is turned away, or there is room and the loop
runs over the bytes of a slot. -/
theorem wsInputFilterDataframe_cases {storage : Storage} {ws : Buffer} {fd : Fd} {buffer : List UInt8}
    {readLen : ℕ} (hfree : FreeSlots ws.items) (hpos : 0 < readLen) (hread : readLen ≤ buffer.length)
    (henc : (wsChannelIsEncoded storage fd buffer).1 = true) :
    (∃ r, wsInputFilterDataframe storage ws fd buffer readLen = some r ∧
      TurnedAway (wsChannelIsEncoded storage fd buffer).2 ws fd r) ∨
    (¬ wsBufferSizeLeft ws readLen < 0 ∧
      ∃ before old mask after ws', Entered ws fd (buffer.take readLen) before old mask after ws' ∧
        wsInputFilterDataframe storage ws fd buffer readLen =
          decodeBuffered (wsChannelIsEncoded storage fd buffer).2 ws' before.length) := by
  have hlen : (buffer.take readLen).length = readLen := by simp [hread]
  unfold wsInputFilterDataframe
  dsimp only
  rw [if_pos henc]
  cases hi : ws.items.findIdx? (fun item => item.fd == fd) with
  | none =>
    -- no slot yet: the read opens one
    simp only [wsBufferFind, hi]
    split_ifs with hfull
    · exact .inl ⟨_, rfl, rfl, .inl rfl, .inl ⟨rfl, rfl⟩⟩
    · unfold wsBufferAdd
      cases hj : ws.items.findIdx? (fun item => item.fd == 0) with
      | none => exact .inl ⟨_, rfl, rfl, .inr rfl, .inl ⟨rfl, rfl⟩⟩
      | some j =>
        obtain ⟨before, old, after, hitems, rfl, hold⟩ := split_of_findIdx? hj
        have hfreed : old = freeItem := hfree old (by simp [hitems]) (by simpa using hold)
        refine .inr ⟨hfull, before, old, freeItem.mask, after, _, ⟨hitems, ?_, ?_, ?_⟩, rfl⟩
        · exact .inr ⟨hfreed, findIdx?_eq_none_iff_slots.mp hi⟩
        · simp [hitems, hfreed, freeItem]
        · rw [hlen]
  | some i =>
    -- the read continues the bytes of the slot
    obtain ⟨before, old, after, hitems, rfl, hold⟩ := split_of_findIdx? hi
    have hfd : old.fd = fd := by simpa using hold
    have hget : ws.items.getD before.length freeItem = old := by simp [hitems]
    simp only [wsBufferFind, hi]
    split_ifs with hfull
    · refine .inl ⟨_, rfl, rfl, .inl rfl, .inr ⟨before, old, after, hitems, hfd, ?_, ?_⟩⟩
      · simp [wsBufferFree, hitems]
      · simp only [wsBufferFree, hget]
    · have hgrow := erealloc_grow old.received hpos
      have hsize : old.receivedLen + readLen > 0 := by omega
      simp only [hget, wsBufferResize, hsize, if_true]
      rw [BufferItem.receivedLen, hgrow, Option.getD_some, List.take_left]
      refine .inr ⟨hfull, before, old, old.mask, after, _, ⟨hitems, .inl hfd, ?_, ?_⟩, rfl⟩
      · simp [hitems, hfd]
      · rw [hlen, BitVec.ofNat_add]
        dsimp only
        rw [BitVec.add_comm (BitVec.ofNat 64 _) (BitVec.ofNat 64 readLen), BitVec.add_sub_cancel]

def buffered (b : Buffer) (fd : Fd) : List UInt8 := ((slots b.items fd).head?.bind BufferItem.received).getD []

theorem buffered_middle {before after : List BufferItem} {item : BufferItem} {ws : Buffer} {fd : Fd}
    (hitems : ws.items = before ++ item :: after) (hbefore : slots before fd = []) (hafter : slots after fd = []) :
    buffered ws fd = if item.fd = fd then item.received.getD [] else [] := by
  rw [buffered, hitems, slots_middle, hbefore, hafter]
  split_ifs <;> rfl

theorem Entered.buffered_eq {ws ws' : Buffer} {fd : Fd} {chunk mask : List UInt8} {before after : List BufferItem}
    {old : BufferItem} (he : Entered ws fd chunk before old mask after ws') (h0 : fd ≠ 0)
    (hone : (slots ws.items fd).length ≤ 1) :
    buffered ws fd = old.received.getD [] ∧ slots before fd = [] ∧ slots after fd = [] := by
  have hslots := congrArg (fun items => (slots items fd).length) he.items
  simp only [slots_middle, List.length_append] at hslots
  have hothers : slots before fd = [] ∧ slots after fd = [] := by
    rw [← List.length_eq_zero_iff, ← List.length_eq_zero_iff]
    rcases he.slot with hfd | ⟨-, hnone⟩
    · rw [if_pos hfd, List.length_singleton] at hslots
      omega
    · rw [hnone, List.length_nil] at hslots
      omega
  refine ⟨?_, hothers⟩
  rw [buffered_middle he.items hothers.1 hothers.2]
  rcases he.slot with hfd | ⟨rfl, -⟩
  · rw [if_pos hfd]
  · rw [if_neg (show freeItem.fd ≠ fd from h0.symm)]
    rfl

theorem Holds.buffered_eq {ws : Buffer} {fd : Fd} {p : List UInt8} (h : Holds ws.items fd p) :
    buffered ws fd = p ∧ (slots ws.items fd).length ≤ 1 := by
  unfold Holds at h
  unfold buffered
  split_ifs at h with hnil
  · simp [h, hnil]
  · obtain ⟨mask, frameLen, hslot⟩ := h
    simp [hslot]

/-- One call of the filter: the pending bytes and the read together are whole frames and a new
rest. -/
theorem wsInputFilterDataframe_frames {storage : Storage} {ws : Buffer} {fd : Fd}
    {p chunk q : List UInt8} {gs hs : List Frame} (tail : List UInt8) (h0 : fd ≠ 0)
    (henc : Encoded storage fd) (hfree : FreeSlots ws.items) (hp : Holds ws.items fd p)
    (hchunk : chunk ≠ []) (hb : p ++ chunk = encodeAll Frame.bytes gs ++ q)
    (hq : Pending Frame.bytes hs q) :
    ∃ r, wsInputFilterDataframe storage ws fd (chunk ++ tail) chunk.length = some r ∧
      r.storage = storage ∧
      (r.status = .bufferExceededMax ∨ r.status = .bufferOutOfSlots ∨ Reassembled ws fd gs q r) := by
  have hchannel := wsChannelIsEncoded_of_encoded henc (chunk ++ tail)
  have hread : chunk.length ≤ (chunk ++ tail).length := by simp
  obtain ⟨r, hr, haway⟩ | ⟨-, before, old, mask, after, ws', he, hdecode⟩ :=
    wsInputFilterDataframe_cases hfree (List.length_pos_iff.mpr hchunk) hread
      (show (wsChannelIsEncoded storage fd (chunk ++ tail)).1 = true by rw [hchannel])
  · rw [hchannel] at haway
    exact ⟨r, hr, haway.storage, haway.status.imp_right .inl⟩
  · obtain ⟨hbytes, hone⟩ := hp.buffered_eq
    obtain ⟨hold, hbefore, hafter⟩ := he.buffered_eq h0 hone
    rw [hchannel] at hdecode
    have hentered := he.entered
    rw [← hold, hbytes, List.take_left] at hentered
    obtain ⟨r, hr, hst, hre⟩ := reassembled_of_slot storage ws' h0 hfree he.items
      (he.slot.imp_right fun h => by rw [h.1]; rfl) hbefore hafter hentered (by simp [hchunk]) hb hq
    exact ⟨r, hdecode.trans hr, hst, .inr (.inr hre)⟩

/-- A read on a connection: the bytes, and what an earlier read left behind them in the read
buffer. -/
structure Read where
  fd : Fd
  chunk : List UInt8
  tail : List UInt8
  now : ℤ
  chunk_ne : chunk ≠ []

/-- The epoll thread reads, or the reader thread takes a message off the input queue. -/
inductive Event
  | read (r : Read)
  | take

/-- The epoll thread, the messages the reader has taken, and whether a call was refused for lack
of room; after that the run is not looked at any more. -/
structure Intake where
  server : Server
  taken : List MessageWithTimestamp
  limited : Bool

def Intake.put (s : Intake) : List MessageWithTimestamp := s.taken ++ s.server.inputQueue

def outOfRoom (status : WsStatus) (dropped : ℕ) : Bool :=
  status == .bufferExceededMax || status == .bufferOutOfSlots || dropped != 0

def intakeStep (limit : ℕ) (s : Intake) : Event → Option Intake
  | .read r =>
      if s.limited then some s
      else (filterInput limit r.now s.server r.fd (r.chunk ++ r.tail) r.chunk.length).map
        fun (status, dropped, server) =>
          { s with server := server, limited := outOfRoom status dropped }
  | .take =>
      match s.server.inputQueue with
      | [] => some s
      | m :: q => some { s with server := { s.server with inputQueue := q }, taken := s.taken ++ [m] }

def received (fd : Fd) (events : List Event) : List UInt8 :=
  events.flatMap fun
    | .read r => if r.fd = fd then r.chunk else []
    | .take => []

def messagesFor (fd : Fd) (messages : List MessageWithTimestamp) : List (Fd × CStr) :=
  (messages.filter fun m => m.fd == fd || m.fd == sessionSetEncoded fd).map fun m => (m.fd, m.content)

/-- A connection before its first byte: marked as encoded and without a slot. -/
structure Ready (srv : Server) (fd : Fd) : Prop where
  ne_zero : fd ≠ 0
  admitted : fd.toNat ≤ maxNumberOfConnections
  encoded : Encoded srv.storage fd
  no_slot : slots srv.ws.items fd = []

def textsOf (fd : Fd) (gs : List Frame) : List (Fd × CStr) :=
  gs.map fun g => (sessionSetEncoded fd, g.text)

/-- A connection in the middle of its stream: what arrived is complete frames, whose texts are
among the new messages, and a rest, which is in the slot. -/
def Served (frames : List Frame) (arrived : List UInt8) (items : List BufferItem)
    (new : List MessageWithTimestamp) (fd : Fd) : Prop :=
  ∃ gs hs q, frames = gs ++ hs ∧ arrived = encodeAll Frame.bytes gs ++ q ∧
    Pending Frame.bytes hs q ∧ messagesFor fd new = textsOf fd gs ∧ Holds items fd q

theorem splitTexts_payloads (gs : List Frame) :
    splitTexts (gs.flatMap Frame.payload).dropLast = gs.map Frame.text := by
  induction gs with
  | nil => rfl
  | cons g gs ih =>
    cases gs with
    | nil =>
      simp [Frame.payload, splitTexts_singleton g.text_ne g.nul_free]
    | cons g' gs =>
      have hne : (g' :: gs).flatMap Frame.payload ≠ [] := by simp [Frame.payload]
      rw [List.flatMap_cons, List.dropLast_append_of_ne_nil hne, Frame.payload, List.append_assoc,
        List.singleton_append, splitTexts_append _ g.nul_free, ih]
      rfl

theorem gathered_take (gs : List Frame) :
    ((gathered none gs).getD []).take (((gathered none gs).getD []).length - 1) =
      (gs.flatMap Frame.payload).dropLast := by
  rw [List.dropLast_eq_take]
  cases gs <;> simp [gathered]

theorem messagesFor_append (fd : Fd) (ms ms' : List MessageWithTimestamp) :
    messagesFor fd (ms ++ ms') = messagesFor fd ms ++ messagesFor fd ms' := by
  simp [messagesFor]

theorem messagesFor_texts_self (fd : Fd) (now : ℤ) (gs : List Frame) :
    messagesFor fd ((gs.map Frame.text).map (⟨sessionSetEncoded fd, ·, now⟩)) = textsOf fd gs := by
  induction gs with
  | nil => rfl
  | cons g gs ih => simpa [messagesFor, textsOf] using ih

theorem messagesFor_texts_other {fd g : Fd} (hf : Plain fd) (hg : Plain g) (hne : g ≠ fd) (now : ℤ)
    (gs : List Frame) :
    messagesFor g ((gs.map Frame.text).map (⟨sessionSetEncoded fd, ·, now⟩)) = [] := by
  have h1 : sessionSetEncoded fd ≠ g := fun h => hg.sessionSetEncoded_ne h.symm
  have h2 : sessionSetEncoded fd ≠ sessionSetEncoded g := fun h =>
    hne ((sessionSetEncoded_inj hf hg).mp h).symm
  simp [messagesFor, Function.comp_def, h1, h2]

theorem filterInput_frames (limit : ℕ) {srv : Server} {p q : List UInt8} {gs hs : List Frame}
    (r : Read) (h0 : r.fd ≠ 0) (henc : Encoded srv.storage r.fd) (hfree : FreeSlots srv.ws.items)
    (hp : Holds srv.ws.items r.fd p) (hb : p ++ r.chunk = encodeAll Frame.bytes gs ++ q)
    (hq : Pending Frame.bytes hs q) :
    ∃ status dropped srv', filterInput limit r.now srv r.fd (r.chunk ++ r.tail) r.chunk.length =
        some (status, dropped, srv') ∧
      (outOfRoom status dropped = true ∨
        outOfRoom status dropped = false ∧ srv'.storage.clients = srv.storage.clients ∧
        FreeSlots srv'.ws.items ∧ Holds srv'.ws.items r.fd q ∧
        (∀ g, g ≠ r.fd → g ≠ 0 → slots srv'.ws.items g = slots srv.ws.items g) ∧
        srv'.inputQueue = srv.inputQueue ++
          (gs.map Frame.text).map (⟨sessionSetEncoded r.fd, ·, r.now⟩)) := by
  obtain ⟨f, hf, hst, hres⟩ :=
    wsInputFilterDataframe_frames r.tail h0 henc hfree hp r.chunk_ne hb hq
  unfold filterInput
  simp only [hf, Option.bind_eq_bind, Option.bind_some]
  refine ⟨_, _, _, rfl, ?_⟩
  rcases hres with hs | hs | hre
  · exact .inl (by simp [outOfRoom, hs])
  · exact .inl (by simp [outOfRoom, hs])
  · have hframe : f.status ≠ .notADataframe := by
      rcases hre.status with h | h <;> simp [h]
    rw [if_neg hframe]
    by_cases hd : (putStompMessagesOnQueue limit r.now (sessionSetEncoded r.fd) (f.out.getD [])
        srv.inputQueue f.decodedBufLen).2 = 0
    · refine .inr ⟨?_, by simp [hst, sessionStorageUnlock], hre.free, hre.holds, hre.others, ?_⟩
      · rcases hre.status with h | h <;> simp [outOfRoom, h, hd]
      · have htexts : splitTexts ((f.out.getD []).take f.decodedBufLen) = gs.map Frame.text := by
          rw [hre.out, hre.decodedBufLen, gathered_take, splitTexts_payloads]
        simp only [putStompMessagesOnQueue, htexts] at hd ⊢
        exact enqueueTexts_fst hd
    · exact .inl (by simp [outOfRoom, hd])

structure Accounted (srv : Server) (frames : Fd → List Frame) (events : List Event) (s : Intake) :
    Prop where
  unlimited : s.limited = false
  clients : s.server.storage.clients = srv.storage.clients
  free : FreeSlots s.server.ws.items
  served : ∃ new, s.put = srv.inputQueue ++ new ∧
    ∀ fd, Ready srv fd → Served (frames fd) (received fd events) s.server.ws.items new fd

theorem received_snoc (fd : Fd) (events : List Event) (e : Event) :
    received fd (events ++ [e]) = received fd events ++ received fd [e] := by
  simp [received]

theorem accounted_start {srv : Server} (frames : Fd → List Frame) (h : FreeSlots srv.ws.items) :
    Accounted srv frames [] ⟨srv, [], false⟩ := by
  refine ⟨rfl, rfl, h, [], by simp [Intake.put], fun fd hr => ?_⟩
  exact ⟨[], frames fd, [], rfl, rfl, .inl rfl, rfl, by simpa [Holds] using hr.no_slot⟩

theorem Accounted.take (limit : ℕ) {srv : Server} {frames : Fd → List Frame} {events : List Event}
    {s : Intake} (h : Accounted srv frames events s) :
    ∃ t, intakeStep limit s .take = some t ∧ Accounted srv frames (events ++ [.take]) t := by
  obtain ⟨new, hput, hserved⟩ := h.served
  have hrec : ∀ fd, received fd (events ++ [.take]) = received fd events := by
    intro fd
    simp [received]
  simp only [intakeStep]
  cases hq : s.server.inputQueue with
  | nil => exact ⟨s, rfl, h.unlimited, h.clients, h.free, new, hput, by simpa only [hrec] using hserved⟩
  | cons m q =>
    refine ⟨_, rfl, h.unlimited, h.clients, h.free, new, ?_, by simpa only [hrec] using hserved⟩
    rw [← hput]
    simp [Intake.put, hq]

/-- A read keeps the account unless it meets a limit. -/
theorem Accounted.read {limit : ℕ} {srv : Server} {frames : Fd → List Frame} {events : List Event}
    {s : Intake} {r : Read} (h : Accounted srv frames events s) (hr : Ready srv r.fd)
    (hstream : received r.fd (events ++ [.read r]) <+: encodeAll Frame.bytes (frames r.fd)) :
    ∃ t, intakeStep limit s (.read r) = some t ∧
      (t.limited = true ∨ Accounted srv frames (events ++ [.read r]) t) := by
  obtain ⟨new, hput, hserved⟩ := h.served
  obtain ⟨gs, hs, p, hframes, harr, hpend, hmsg, hholds⟩ := hserved r.fd hr
  have hself : received r.fd [.read r] = r.chunk := by simp [received]
  have hnext : p ++ r.chunk <+: encodeAll Frame.bytes hs := by
    rw [received_snoc, hself, harr, hframes, encodeAll_append, List.append_assoc,
      List.prefix_append_right_inj] at hstream
    exact hstream
  obtain ⟨gs', hs', q, rfl, hsplit, hpend'⟩ := exists_split hnext
  have henc : Encoded s.server.storage r.fd := by
    rw [Encoded, sessionStorageGet, h.clients]
    exact hr.encoded
  obtain ⟨status, dropped, server', hf, hres⟩ :=
    filterInput_frames limit r hr.ne_zero henc h.free hholds hsplit hpend'
  simp only [intakeStep, h.unlimited, Bool.false_eq_true, if_false, hf, Option.map_some]
  refine ⟨_, rfl, ?_⟩
  rcases hres with hlim | ⟨hok, hclients, hfree, hholds', hothers, hqueue⟩
  · exact .inl hlim
  · refine .inr ⟨hok, hclients.trans h.clients, hfree,
      new ++ (gs'.map Frame.text).map (⟨sessionSetEncoded r.fd, ·, r.now⟩), ?_, ?_⟩
    · simp only [Intake.put, hqueue]
      rw [← List.append_assoc, ← List.append_assoc, ← hput]
      rfl
    · intro fd hfd
      rw [received_snoc]
      by_cases he : fd = r.fd
      · subst he
        refine ⟨gs ++ gs', hs', q, by simp [hframes], ?_, hpend', ?_, hholds'⟩
        · rw [harr, hself, List.append_assoc, hsplit, encodeAll_append, List.append_assoc]
        · rw [messagesFor_append, hmsg, messagesFor_texts_self, textsOf, textsOf, textsOf,
            List.map_append]
      · obtain ⟨gs₁, hs₁, q₁, hf₁, ha₁, hp₁, hm₁, hh₁⟩ := hserved fd hfd
        have hnone : received fd [.read r] = [] := by simp [received, Ne.symm he]
        refine ⟨gs₁, hs₁, q₁, hf₁, by rw [hnone, List.append_nil, ha₁], hp₁, ?_, ?_⟩
        · rw [messagesFor_append, hm₁, messagesFor_texts_other (plain_of_admitted hr.admitted)
            (plain_of_admitted hfd.admitted) he, List.append_nil]
        · unfold Holds at hh₁ ⊢
          rwa [hothers fd he hfd.ne_zero]

theorem accounted_exec (limit : ℕ) {srv : Server} {frames : Fd → List Frame} (events : List Event)
    (hfree : FreeSlots srv.ws.items) (hconn : ∀ r, .read r ∈ events → Ready srv r.fd)
    (hstream : ∀ fd, Ready srv fd → received fd events <+: encodeAll Frame.bytes (frames fd)) :
    ∃ s, exec (intakeStep limit) ⟨srv, [], false⟩ events = some s ∧
      (s.limited = true ∨ Accounted srv frames events s) := by
  induction events using List.reverseRecOn with
  | nil => exact ⟨_, rfl, .inr (accounted_start frames hfree)⟩
  | append_singleton events e ih =>
    obtain ⟨s, hs, hacc⟩ := ih (fun r hr => hconn r (by simp [hr])) fun fd hfd => by
      refine List.IsPrefix.trans ?_ (hstream fd hfd)
      rw [received_snoc]
      exact List.prefix_append _ _
    have hstep : ∃ t, intakeStep limit s e = some t ∧
        (t.limited = true ∨ Accounted srv frames (events ++ [e]) t) := by
      rcases hacc with hlim | hacc
      · -- a limited run stays limited
        cases e with
        | read r => exact ⟨s, by simp [intakeStep, hlim], .inl hlim⟩
        | take =>
          simp only [intakeStep]
          cases s.server.inputQueue with
          | nil => exact ⟨s, rfl, .inl hlim⟩
          | cons m q => exact ⟨_, rfl, .inl hlim⟩
      · cases e with
        | read r =>
          have hr := hconn r (by simp)
          exact hacc.read hr (hstream r.fd hr)
        | take =>
          obtain ⟨t, ht, hacc'⟩ := hacc.take limit
          exact ⟨t, ht, .inr hacc'⟩
    obtain ⟨t, ht, hacc'⟩ := hstep
    refine ⟨t, ?_, hacc'⟩
    rw [exec_append, hs]
    simp [exec, ht]

/-- However the streams of encoded connections are cut into reads and interleaved, a run that
meets no limit has put exactly the texts of each finished stream on the input queue, once each
and in order, and left the connection without a slot. -/
theorem texts_once_in_order (limit : ℕ) (srv : Server) (frames : Fd → List Frame)
    (events : List Event) (hfree : FreeSlots srv.ws.items)
    (hconn : ∀ r, .read r ∈ events → Ready srv r.fd)
    (hstream : ∀ fd, Ready srv fd → received fd events <+: encodeAll Frame.bytes (frames fd)) :
    ∃ s, exec (intakeStep limit) ⟨srv, [], false⟩ events = some s ∧
      (s.limited = true ∨ ∃ new, s.put = srv.inputQueue ++ new ∧
        ∀ fd, Ready srv fd → received fd events = encodeAll Frame.bytes (frames fd) →
          messagesFor fd new = textsOf fd (frames fd) ∧ slots s.server.ws.items fd = []) := by
  obtain ⟨s, hs, hacc⟩ := accounted_exec limit events hfree hconn hstream
  refine ⟨s, hs, hacc.imp_right fun h => ?_⟩
  obtain ⟨new, hput, hserved⟩ := h.served
  refine ⟨new, hput, fun fd hfd hall => ?_⟩
  obtain ⟨gs, hs, q, hframes, harr, hpend, hmsg, hholds⟩ := hserved fd hfd
  have hq : q = encodeAll Frame.bytes hs := by
    rw [hall, hframes, encodeAll_append] at harr
    exact (List.append_cancel_left harr).symm
  obtain ⟨rfl, rfl⟩ := hpend.eq_nil Frame.bytes_ne_nil hq
  rw [List.append_nil] at hframes
  rw [hframes]
  exact ⟨hmsg, by simpa [Holds] using hholds⟩

def connectFrame : Frame where
  first := 0x81
  mask := [1, 2, 3, 4]
  text := lit "CONNECT\n\n\n"
  text_opcode := by decide
  mask_length := rfl
  text_ne := by decide
  nul_free := by decide
  long := by decide
  small := by decide

def encodedFive : Server :=
  ⟨sessionStorageSetEncoded sessionStorageInit 5, wsInitBuffer, [], []⟩

theorem freeSlots_init : FreeSlots wsInitBuffer.items := by
  intro item hm _
  exact List.eq_of_mem_replicate hm

theorem ready_encodedFive : Ready encodedFive 5 := by
  refine ⟨by decide, by decide, by unfold Encoded; decide, ?_⟩
  exact List.filter_eq_nil_iff.mpr fun item hm => by
    rw [List.eq_of_mem_replicate hm]
    decide

/-- The frame in two reads, cut inside its mask, with old bytes behind the first one. -/
def twoReads : List Event :=
  [.read ⟨5, [0x81, 0x8b, 1], [0x81], 7, by decide⟩, .take,
    .read ⟨5, connectFrame.bytes.drop 3, [], 8, by decide⟩]

theorem texts_once_in_order_twoReads :
    ∃ s new, exec (intakeStep 10) ⟨encodedFive, [], false⟩ twoReads = some s ∧ s.limited = false ∧
      s.put = new ∧ messagesFor 5 new = [(sessionSetEncoded 5, lit "CONNECT\n\n\n")] ∧
      slots s.server.ws.items 5 = [] := by
  have hlim : (exec (intakeStep 10) ⟨encodedFive, [], false⟩ twoReads).map Intake.limited =
      some false := by decide +kernel
  have hwhole : received 5 twoReads = connectFrame.bytes := by decide
  have hconn : ∀ r, .read r ∈ twoReads → Ready encodedFive r.fd := by
    intro r hr
    simp only [twoReads, List.mem_cons, Event.read.injEq, reduceCtorEq, List.not_mem_nil, or_false,
      false_or] at hr
    rcases hr with rfl | rfl <;> exact ready_encodedFive
  have hstream : ∀ fd, Ready encodedFive fd → received fd twoReads <+:
      encodeAll Frame.bytes (if fd = 5 then [connectFrame] else []) := by
    intro fd _
    by_cases h : fd = 5
    · subst h
      rw [hwhole]
      simp
    · have h5 : ¬ (5 : Fd) = fd := fun he => h he.symm
      have hnone : received fd twoReads = [] := by
        simp only [received, twoReads, List.flatMap_cons, List.flatMap_nil, if_neg h5,
          List.append_nil]
      rw [hnone]
      exact List.nil_prefix
  obtain ⟨s, hs, hres⟩ := texts_once_in_order 10 encodedFive
    (fun fd => if fd = 5 then [connectFrame] else []) twoReads freeSlots_init hconn hstream
  rw [hs] at hlim
  have hlim' : s.limited = false := Option.some.inj hlim
  rcases hres with h | ⟨new, hput, hall⟩
  · rw [hlim'] at h
    cases h
  · obtain ⟨hmsg, hslot⟩ := hall 5 ready_encodedFive (by rw [hwhole]; simp)
    exact ⟨s, new, hs, hlim', hput, hmsg, hslot⟩

end StompBroker.Chunking
