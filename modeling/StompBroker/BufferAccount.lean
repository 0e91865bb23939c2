import Mathlib.Data.BitVec
import StompBroker.Chunking

/-! The statistics of the reassembly buffer are exact: whatever the websocket filter is called
with and whichever connections are torn down in between, the allocated size is the number of
bytes in the slots, and it stays within the maximum. -/
namespace StompBroker.BufferAccount
open CString SessionStorage WsBuffer Dataframe DecodeLoop Chunking AcceptEpoll TransitionSystem

def total (items : List BufferItem) : ℕ := (items.map BufferItem.receivedLen).sum

def Occupied (item : BufferItem) : Prop :=
  ∃ block, item.received = some block ∧ 0 < block.length

structure Consistent (b : Buffer) : Prop where
  one_slot : ∀ fd, fd ≠ 0 → (slots b.items fd).length ≤ 1
  allocated : b.allocatedSize.toNat = total b.items
  room : b.allocatedSize ≤ wsMaxBufferSize
  occupied : ∀ item ∈ b.items, item.fd ≠ 0 → Occupied item
  free : FreeSlots b.items

/-- The answers of the filter to a connection for which there is no room. -/
def Refused (status : WsStatus) : Prop := status = .bufferExceededMax ∨ status = .bufferOutOfSlots

/-- Every slot that is not one of the descriptor is as it was. -/
def OthersUntouched (fd : Fd) (items items' : List BufferItem) : Prop :=
  ∀ (i : ℕ) (item : BufferItem), items[i]? = some item → item.fd ≠ fd → items'[i]? = some item

theorem total_middle (before : List BufferItem) (item : BufferItem) (after : List BufferItem) :
    total (before ++ item :: after) = total before + item.receivedLen + total after := by
  simp only [total, List.map_append, List.map_cons, List.sum_append, List.sum_cons]
  omega

theorem Consistent.total_le {b : Buffer} (h : Consistent b) : total b.items ≤ wsMaxBufferSize.toNat := by
  rw [← h.allocated]
  exact h.room

theorem Consistent.allocated_eq {b : Buffer} (h : Consistent b) :
    b.allocatedSize = BitVec.ofNat 64 (total b.items) := by
  rw [← h.allocated]
  simp

theorem consistent_init : Consistent wsInitBuffer := by
  have hitems : ∀ item ∈ wsInitBuffer.items, item = freeItem := fun item hm => List.eq_of_mem_replicate hm
  refine ⟨fun fd h0 => ?_, ?_, by decide, fun item hm h0 => ?_, fun item hm _ => hitems item hm⟩
  · have hnil : slots wsInitBuffer.items fd = [] := by
      rw [slots, List.filter_eq_nil_iff]
      intro item hm
      rw [hitems item hm]
      simpa [freeItem] using h0.symm
    simp [hnil]
  · simp [wsInitBuffer, total, freeItem, BufferItem.receivedLen]
  · rw [hitems item hm] at h0
    exact absurd rfl h0

/-- One slot was replaced, and the allocated size moved by the difference. The new slot is free
or the only one of its descriptor. -/
structure Exchanged (b b' : Buffer) (before : List BufferItem) (old new : BufferItem)
    (after : List BufferItem) : Prop where
  items : b.items = before ++ old :: after
  items_eq : b'.items = before ++ new :: after
  balance : b'.allocatedSize - BitVec.ofNat 64 new.receivedLen =
    b.allocatedSize - BitVec.ofNat 64 old.receivedLen
  room : total b.items + new.receivedLen ≤ wsMaxBufferSize.toNat + old.receivedLen
  slot : new = freeItem ∨
    new.fd ≠ 0 ∧ Occupied new ∧ (old.fd = new.fd ∨ slots b.items new.fd = [])

section Exchange
variable {b b' : Buffer} {before after : List BufferItem} {old new : BufferItem}

theorem Exchanged.total_eq (h : Exchanged b b' before old new after) :
    total b'.items + old.receivedLen = total b.items + new.receivedLen := by
  rw [h.items, h.items_eq, total_middle, total_middle]
  omega

theorem Exchanged.allocated_eq (h : Exchanged b b' before old new after)
    (hb : b.allocatedSize = BitVec.ofNat 64 (total b.items)) :
    b'.allocatedSize = BitVec.ofNat 64 (total b'.items) := by
  have hsum := congrArg (BitVec.ofNat 64) h.total_eq
  rw [BitVec.ofNat_add, BitVec.ofNat_add] at hsum
  have hbal := h.balance
  rw [hb] at hbal
  linear_combination hbal - hsum

theorem Exchanged.one_slot (h : Exchanged b b' before old new after) {fd : Fd} (h0 : fd ≠ 0)
    (hb : (slots b.items fd).length ≤ 1) : (slots b'.items fd).length ≤ 1 := by
  have hold := congrArg (fun items => (slots items fd).length) h.items
  have hnew := congrArg (fun items => (slots items fd).length) h.items_eq
  simp only [slots_middle, List.length_append] at hold hnew
  rcases h.slot with rfl | ⟨-, -, hfd⟩
  · rw [if_neg (show freeItem.fd ≠ fd from h0.symm), List.length_nil] at hnew
    omega
  · by_cases hn : new.fd = fd
    · subst hn
      rw [if_pos rfl, List.length_singleton] at hnew
      rcases hfd with hfd | hnone
      · rw [if_pos hfd, List.length_singleton] at hold
        omega
      · rw [hnone, List.length_nil] at hold
        omega
    · rw [if_neg hn, List.length_nil] at hnew
      omega

theorem consistent_exchanged (hb : Consistent b) (h : Exchanged b b' before old new after) :
    Consistent b' := by
  have htotal : total b'.items ≤ wsMaxBufferSize.toNat := by
    have := h.total_eq
    have := h.room
    omega
  have halloc := h.allocated_eq hb.allocated_eq
  have hmax := wsMaxBufferSize.isLt
  have hnat : b'.allocatedSize.toNat = total b'.items := by
    rw [halloc, BitVec.toNat_ofNat, Nat.mod_eq_of_lt (by omega)]
  -- a slot of the new table is an old one or the new one
  have hmem : ∀ item ∈ b'.items, item ∈ b.items ∨ item = new := by
    intro item hm
    rw [h.items_eq] at hm
    rw [h.items]
    simp only [List.mem_append, List.mem_cons] at hm ⊢
    tauto
  refine ⟨fun fd h0 => h.one_slot h0 (hb.one_slot fd h0), hnat, ?_, ?_, ?_⟩
  · rw [BitVec.le_def, hnat]
    exact htotal
  · intro item hm h0
    rcases hmem item hm with hm | rfl
    · exact hb.occupied item hm h0
    · rcases h.slot with rfl | ⟨-, hocc, -⟩
      · exact absurd rfl h0
      · exact hocc
  · intro item hm h0
    rcases hmem item hm with hm | rfl
    · exact hb.free item hm h0
    · rcases h.slot with hfree | ⟨hne, -, -⟩
      · exact hfree
      · exact absurd h0 hne

theorem exchanged_free (hb : Consistent b) (hitems : b.items = before ++ old :: after)
    (hitems' : b'.items = before ++ freeItem :: after)
    (halloc : b'.allocatedSize = b.allocatedSize - BitVec.ofNat 64 old.receivedLen) :
    Exchanged b b' before old freeItem after := by
  have hzero : freeItem.receivedLen = 0 := rfl
  refine ⟨hitems, hitems', ?_, ?_, .inl rfl⟩
  · simp [halloc, hzero]
  · have := hb.total_le
    omega

theorem othersUntouched_middle {fd : Fd} (hold : old.fd = fd) :
    OthersUntouched fd (before ++ old :: after) (before ++ new :: after) := by
  intro i item hi hne
  rcases Nat.lt_trichotomy i before.length with hlt | rfl | hgt
  · rwa [List.getElem?_append_left hlt] at hi ⊢
  · simp only [List.getElem?_append_right le_rfl, Nat.sub_self, List.getElem?_cons_zero,
      Option.some.injEq] at hi
    exact absurd (hi ▸ hold) hne
  · obtain ⟨k, rfl⟩ : ∃ k, i = before.length + (k + 1) := ⟨i - before.length - 1, by omega⟩
    rw [List.getElem?_append_right (by omega), Nat.add_sub_cancel_left, List.getElem?_cons_succ] at hi ⊢
    exact hi

end Exchange

structure Drains (s t : LoopState) : Prop where
  fd : t.buff.fd = s.buff.fd
  block : s.buff.received ≠ some [] → t.buff.received ≠ some []
  balance : t.allocated - BitVec.ofNat 64 t.buff.receivedLen =
    s.allocated - BitVec.ofNat 64 s.buff.receivedLen
  shrinks : t.buff.receivedLen ≤ s.buff.receivedLen
  status : ∀ status, Refused status → t.fullFrameLen = .inl status → s.fullFrameLen = .inl status

theorem Drains.refl (s : LoopState) : Drains s s := ⟨rfl, id, rfl, le_rfl, fun _ _ h => h⟩

theorem Drains.trans {s t u : LoopState} (h : Drains s t) (g : Drains t u) : Drains s u where
  fd := g.fd.trans h.fd
  block := fun hs => g.block (h.block hs)
  balance := g.balance.trans h.balance
  shrinks := g.shrinks.trans h.shrinks
  status := fun status hr hu => h.status status hr (g.status status hr hu)

theorem readHeaders_keeps {buf buf' : BufferItem} {full : WsStatus ⊕ ℕ}
    (h : wsDataframeReadHeaders buf = some (buf', full)) :
    buf'.fd = buf.fd ∧ buf'.received = buf.received ∧
      ∀ status, Refused status → full ≠ .inl status := by
  unfold wsDataframeReadHeaders at h
  obtain ⟨r, -, h⟩ := Option.bind_eq_some_iff.mp h
  obtain ⟨b0, -, h⟩ := Option.bind_eq_some_iff.mp h
  dsimp only at h
  split_ifs at h with h8 h1
  · obtain ⟨rfl, rfl⟩ := Prod.mk.inj (Option.some.inj h)
    exact ⟨rfl, rfl, by simp [Refused]⟩
  · obtain ⟨rfl, rfl⟩ := Prod.mk.inj (Option.some.inj h)
    exact ⟨rfl, rfl, by simp [Refused]⟩
  · obtain ⟨b1, -, h⟩ := Option.bind_eq_some_iff.mp h
    obtain ⟨⟨payloadLen, headerLen, mask⟩, -, h⟩ := Option.bind_eq_some_iff.mp h
    dsimp only at h
    split_ifs at h with hlarge
    · obtain ⟨rfl, rfl⟩ := Prod.mk.inj (Option.some.inj h)
      exact ⟨rfl, rfl, by simp [Refused]⟩
    · obtain ⟨rfl, rfl⟩ := Prod.mk.inj (Option.some.inj h)
      exact ⟨rfl, rfl, by simp⟩

/-- The decoder shrinks the slot by the frame, and the allocated size with it. -/
theorem decode_balance {buf buf' : BufferItem} {allocated allocated' : BitVec 64}
    {decoded : Option (List UInt8)}
    (h : wsDataframeDecode buf allocated = some (decoded, buf', allocated')) :
    buf'.fd = buf.fd ∧ (buf.received ≠ some [] → buf'.received ≠ some []) ∧
      allocated' - BitVec.ofNat 64 buf'.receivedLen =
        allocated - BitVec.ofNat 64 buf.receivedLen ∧
      buf'.receivedLen ≤ buf.receivedLen := by
  obtain ⟨fd, mask, n, received⟩ := buf
  by_cases hz : n = 0
  · simp only [wsDataframeDecode, hz, if_true] at h
    obtain ⟨-, rfl, rfl⟩ := h
    exact ⟨rfl, id, rfl, le_rfl⟩
  · cases received with
    | none => simp [wsDataframeDecode, hz] at h
    | some r =>
      have hfit : skipLen n + n ≤ r.length := by
        by_contra hlt
        simp [wsDataframeDecode, hz, slice, hlt] at h
      rw [decode_of_frame fd mask allocated (by omega) hfit, Option.some.injEq, Prod.mk.injEq,
        Prod.mk.injEq] at h
      obtain ⟨-, rfl, rfl⟩ := h
      have hlen : BufferItem.receivedLen ⟨fd, mask, 0, remaining r (skipLen n + n)⟩ =
          r.length - n - skipLen n := by
        simp only [BufferItem.receivedLen, remaining_getD, List.length_drop]
        omega
      refine ⟨rfl, fun _ => ?_, ?_, ?_⟩
      · unfold remaining
        split_ifs with hrest
        · simpa using hrest
        · simp
      · rw [hlen]
        simp only [BufferItem.receivedLen, Option.getD_some]
        ring
      · rw [hlen]
        simp only [BufferItem.receivedLen, Option.getD_some]
        omega

theorem drains_iteration {s t : LoopState}
    (h : decodeIteration s = .leave t ∨ ∃ size, decodeIteration s = .again size t) : Drains s t := by
  unfold decodeIteration at h
  split_ifs at h with hloop
  · cases hh : wsDataframeReadHeaders s.buff with
    | none => simp [hh] at h
    | some p =>
      obtain ⟨buff, full⟩ := p
      obtain ⟨hfd, hrec, hst⟩ := readHeaders_keeps hh
      have hlen : buff.receivedLen = s.buff.receivedLen := by
        rw [BufferItem.receivedLen, hrec, BufferItem.receivedLen]
      have hleave : Drains s { s with buff := buff, fullFrameLen := full } :=
        ⟨hfd, by rw [hrec]; exact id, by rw [hlen], hlen.le, fun st hr he => absurd he (hst st hr)⟩
      cases full with
      | inl status =>
        simp only [hh, Iteration.leave.injEq, reduceCtorEq, exists_false, or_false] at h
        exact h ▸ hleave
      | inr full =>
        simp only [hh] at h
        split_ifs at h with hpart
        · simp only [Iteration.leave.injEq, exists_false, or_false] at h
          exact h ▸ hleave
        · cases hd : wsDataframeDecode buff s.allocated with
          | none => simp [hd] at h
          | some q =>
            obtain ⟨decoded, buff', allocated⟩ := q
            obtain ⟨hfd', hblock, hbal, hle⟩ := decode_balance hd
            simp only [hd] at h
            cases hre : erealloc s.agDecodedData (s.agDecodedDataLen + buff.frameLen) with
            | none => simp [hre] at h
            | some block =>
              simp only [hre, reduceCtorEq, Iteration.again.injEq, exists_eq_left', false_or] at h
              subst h
              exact hleave.trans ⟨hfd', hblock, hbal, hle, by simp⟩
  · simp only [Iteration.leave.injEq, exists_false, or_false] at h
    exact h ▸ Drains.refl s

theorem drains_loop {fuel : ℕ} {s t : LoopState} (h : decodeLoop fuel s = some t) : Drains s t := by
  induction fuel generalizing s with
  | zero => simp [decodeLoop] at h
  | succ fuel ih =>
    cases hi : decodeIteration s with
    | leave u =>
      rw [decodeLoop_leave hi, Option.some.injEq] at h
      exact drains_iteration (.inl (h ▸ hi))
    | again size u =>
      rw [decodeLoop_again hi] at h
      exact (drains_iteration (.inr ⟨size, hi⟩)).trans (ih h)
    | exit size => simp [decodeLoop, hi] at h
    | fault => simp [decodeLoop, hi] at h

theorem decodeBuffered_slot {storage : Storage} {ws : Buffer} {before after : List BufferItem}
    {item : BufferItem} {r : FilterResult} (hitems : ws.items = before ++ item :: after)
    (hne : item.received ≠ some []) (h : decodeBuffered storage ws before.length = some r) :
    ¬ Refused r.status ∧ ∃ new, r.ws.items = before ++ new :: after ∧
      (new = freeItem ∨ new.fd = item.fd ∧ Occupied new) ∧
      r.ws.allocatedSize - BitVec.ofNat 64 new.receivedLen =
        ws.allocatedSize - BitVec.ofNat 64 item.receivedLen ∧
      new.receivedLen ≤ item.receivedLen := by
  have hget : ws.items.getD before.length freeItem = item := by simp [hitems]
  unfold decodeBuffered at h
  rw [hget] at h
  obtain ⟨s, hs, h⟩ := Option.bind_eq_some_iff.mp h
  obtain ⟨hfd, hblock, hbal, hle, hstatus⟩ := drains_loop hs
  obtain rfl := Option.some.inj h
  refine ⟨?_, ?_⟩
  · dsimp only
    intro hr
    split at hr
    · rename_i status hfull
      exact Sum.inr_ne_inl (hstatus status hr hfull)
    · split_ifs at hr <;> simp [Refused] at hr
  · cases hrec : s.buff.received with
    | none =>
      have hzero : s.buff.receivedLen = 0 := by simp [BufferItem.receivedLen, hrec]
      refine ⟨freeItem, by simp [hitems, wsBufferFree], .inl rfl, ?_, Nat.zero_le _⟩
      rw [← hbal, hzero]
      simp [hrec, hitems, wsBufferFree, freeItem, BufferItem.receivedLen]
    | some block =>
      have hpos : 0 < block.length := by
        rw [List.length_pos_iff]
        rintro rfl
        exact hblock hne hrec
      exact ⟨s.buff, by simp [hitems], .inr ⟨hfd, block, hrec, hpos⟩, by simp [hbal], hle⟩

/-- The difference is taken in 64 bits and truncated to an `int`, which shows its sign as long
as one read is shorter than 2 ^ 31 bytes. -/
theorem wsBufferSizeLeft_neg_iff {b : Buffer} {used n : ℕ}
    (hb : b.allocatedSize = BitVec.ofNat 64 used) (hused : used ≤ wsMaxBufferSize.toNat) (hn : n < 2 ^ 31) :
    wsBufferSizeLeft b n < 0 ↔ wsMaxBufferSize.toNat < used + n := by
  have hmax : wsMaxBufferSize.toNat = 10000000 := rfl
  have hsum : (b.allocatedSize + BitVec.ofNat 64 n).toNat = used + n := by
    rw [hb, ← BitVec.ofNat_add, BitVec.toNat_ofNat, Nat.mod_eq_of_lt (by omega)]
  rw [wsBufferSizeLeft, BitVec.toInt_eq_toNat_cond, BitVec.toNat_setWidth, BitVec.toNat_sub, hsum, hmax]
  split_ifs <;> omega

/-- A read handed to the filter, with the session table of that moment. The size of the read
buffer is an `int` of the configuration. -/
structure FilterCall (inputBufferSize : BitVec 32) where
  storage : Storage
  fd : Fd
  buffer : List UInt8
  readLen : ℕ
  fd_pos : 0 < fd.toInt
  readLen_pos : 1 ≤ readLen
  readLen_le : (readLen : ℤ) ≤ inputBufferSize.toInt
  was_read : readLen ≤ buffer.length

def FilterCall.result {inputBufferSize : BitVec 32} (c : FilterCall inputBufferSize) (b : Buffer) :
    Option FilterResult :=
  wsInputFilterDataframe c.storage b c.fd c.buffer c.readLen

/-- The filter runs, or a connection is torn down; the rest of the server is arbitrary. -/
inductive Call (inputBufferSize : BitVec 32)
  | filter (c : FilterCall inputBufferSize)
  | clean (srv : Server) (fd : Fd)

def callStep {inputBufferSize : BitVec 32} (b : Buffer) : Call inputBufferSize → Option Buffer
  | .filter c => (c.result b).map FilterResult.ws
  | .clean srv fd => some (cleanByFd { srv with ws := b } fd).ws

variable {inputBufferSize : BitVec 32} {b : Buffer} {c : FilterCall inputBufferSize} {r : FilterResult}

theorem FilterCall.fd_ne_zero (c : FilterCall inputBufferSize) : c.fd ≠ 0 := by
  intro h
  have := c.fd_pos
  simp [h] at this

theorem FilterCall.readLen_lt (c : FilterCall inputBufferSize) : c.readLen < 2 ^ 31 := by
  have := c.readLen_le
  have := BitVec.toInt_lt (x := inputBufferSize)
  omega

theorem room_of_accepted (hb : Consistent b) {ws : Buffer} (hws : ws.allocatedSize = b.allocatedSize)
    (h : ¬ wsBufferSizeLeft ws c.readLen < 0) : total b.items + c.readLen ≤ wsMaxBufferSize.toNat := by
  rwa [wsBufferSizeLeft_neg_iff (hws.trans hb.allocated_eq) hb.total_le c.readLen_lt,
    Nat.not_lt] at h

/-- The filter accepted a read into a slot that now holds `bytes`; what the loop leaves of them
is accounted for. -/
theorem exchanged_of_decode {ws : Buffer} {before after : List BufferItem}
    {old : BufferItem} {fd : Fd} {storage : Storage} {n : ℕ} (mask bytes : List UInt8) (h0 : fd ≠ 0)
    (hitems : b.items = before ++ old :: after)
    (hold : old.fd = fd ∨ slots b.items fd = [])
    (hws : ws.items = before ++ ⟨fd, mask, 0, some bytes⟩ :: after)
    (halloc : ws.allocatedSize = b.allocatedSize + BitVec.ofNat 64 n)
    (hlen : bytes.length = old.receivedLen + n) (hpos : 0 < n)
    (hroom : total b.items + n ≤ wsMaxBufferSize.toNat)
    (h : decodeBuffered storage ws before.length = some r) :
    ¬ Refused r.status ∧ ∃ new, Exchanged b r.ws before old new after := by
  have hne : some bytes ≠ some [] := by
    rintro hnil
    rw [Option.some.inj hnil, List.length_nil] at hlen
    omega
  obtain ⟨hst, new, hr, hnew, hbal, hle⟩ := decodeBuffered_slot hws hne h
  have hrl : BufferItem.receivedLen ⟨fd, mask, 0, some bytes⟩ = old.receivedLen + n := hlen
  rw [hrl] at hbal hle
  refine ⟨hst, new, hitems, hr, ?_, by omega, ?_⟩
  · rw [hbal, halloc, BitVec.ofNat_add]
    ring
  · rcases hnew with hfree | ⟨hfd, hocc⟩
    · exact .inl hfree
    · exact .inr ⟨hfd ▸ h0, hocc, hfd ▸ hold⟩

def FilterCall.chunk (c : FilterCall inputBufferSize) : List UInt8 := c.buffer.take c.readLen

theorem FilterCall.length_chunk (c : FilterCall inputBufferSize) : c.chunk.length = c.readLen := by
  simp [FilterCall.chunk, c.was_read]

theorem filter_entry (hb : Consistent b) (h : c.result b = some r) :
    ((wsChannelIsEncoded c.storage c.fd c.buffer).1 = false ∧ r.status = .notADataframe ∧ r.ws = b) ∨
    TurnedAway (wsChannelIsEncoded c.storage c.fd c.buffer).2 b c.fd r ∨
    (total b.items + c.readLen ≤ wsMaxBufferSize.toNat ∧
      ∃ before old mask after ws, Entered b c.fd c.chunk before old mask after ws ∧
        decodeBuffered (wsChannelIsEncoded c.storage c.fd c.buffer).2 ws before.length = some r) := by
  by_cases henc : (wsChannelIsEncoded c.storage c.fd c.buffer).1 = true
  · obtain ⟨r', hr', haway⟩ | ⟨hroom, before, old, mask, after, ws, he, hdecode⟩ :=
      @wsInputFilterDataframe_cases c.storage b c.fd c.buffer c.readLen hb.free c.readLen_pos c.was_read henc
    · obtain rfl := Option.some.inj (hr'.symm.trans h)
      exact .inr (.inl haway)
    · exact .inr (.inr ⟨room_of_accepted hb rfl hroom, before, old, mask, after, ws, he, hdecode.symm.trans h⟩)
  · have hraw := Bool.eq_false_of_not_eq_true henc
    rw [FilterCall.result, wsInputFilterDataframe_raw b c.readLen hraw] at h
    obtain rfl := Option.some.inj h
    exact .inl ⟨hraw, rfl, rfl⟩

/-- Everything a call of the filter can do to the buffer: nothing, free the slot of its
descriptor, or, when it does not refuse the read, exchange one slot. -/
theorem filter_cases (hb : Consistent b) (h : c.result b = some r) :
    (r.ws.items = b.items ∧ r.ws.allocatedSize = b.allocatedSize) ∨
    (∃ before old after, old.fd = c.fd ∧ Exchanged b r.ws before old freeItem after) ∨
    (¬ Refused r.status ∧ ∃ before old new after, Exchanged b r.ws before old new after) := by
  obtain ⟨-, -, hws⟩ | haway | ⟨hroom, before, old, mask, after, ws, he, hdecode⟩ := filter_entry hb h
  · exact .inl ⟨by rw [hws], by rw [hws]⟩
  · rcases haway.table with hsame | ⟨before, old, after, hitems, hfd, hfreed, halloc⟩
    · exact .inl hsame
    · exact .inr (.inl ⟨before, old, after, hfd, exchanged_free hb hitems hfreed halloc⟩)
  · rw [← c.length_chunk] at hroom
    have hpos : 0 < c.chunk.length := c.length_chunk ▸ c.readLen_pos
    obtain ⟨hst, new, hnew⟩ := exchanged_of_decode mask (old.received.getD [] ++ c.chunk) c.fd_ne_zero he.items
      (he.slot.imp_right And.right) he.entered he.allocated List.length_append hpos hroom hdecode
    exact .inr (.inr ⟨hst, before, old, new, after, hnew⟩)

theorem Consistent.of_eq {b' : Buffer} (hb : Consistent b) (hitems : b'.items = b.items)
    (halloc : b'.allocatedSize = b.allocatedSize) : Consistent b' := by
  refine ⟨?_, ?_, ?_, ?_, ?_⟩
  · exact hitems ▸ hb.one_slot
  · rw [hitems, halloc, hb.allocated]
  · exact halloc ▸ hb.room
  · exact hitems ▸ hb.occupied
  · exact hitems ▸ hb.free

theorem consistent_filter (hb : Consistent b) (h : c.result b = some r) : Consistent r.ws := by
  obtain ⟨hitems, halloc⟩ | ⟨before, old, after, -, he⟩ | ⟨-, before, old, new, after, he⟩ :=
    filter_cases hb h
  · exact hb.of_eq hitems halloc
  · exact consistent_exchanged hb he
  · exact consistent_exchanged hb he

theorem consistent_clean (hb : Consistent b) (srv : Server) (fd : Fd) :
    Consistent (cleanByFd { srv with ws := b } fd).ws := by
  unfold cleanByFd
  split_ifs with hs
  · cases hi : b.items.findIdx? (fun item => item.fd == fd) with
    | none =>
      simp only [wsBufferFind, hi, wsBufferFree]
      exact hb.of_eq rfl rfl
    | some i =>
      obtain ⟨before, old, after, hitems, rfl, -⟩ := split_of_findIdx? hi
      simp only [wsBufferFind, hi]
      exact consistent_exchanged hb (exchanged_free hb hitems (by simp [wsBufferFree, hitems])
        (by simp [wsBufferFree, hitems]))
  · exact hb

theorem othersUntouched_of_refused (hb : Consistent b) (h : c.result b = some r)
    (hr : Refused r.status) : OthersUntouched c.fd b.items r.ws.items := by
  obtain ⟨hitems, -⟩ | ⟨before, old, after, hold, he⟩ | ⟨hnot, -⟩ := filter_cases hb h
  · intro i item hi _
    rw [hitems]
    exact hi
  · rw [he.items, he.items_eq]
    exact othersUntouched_middle hold
  · exact absurd hr hnot

theorem consistent_run {calls : List (Call inputBufferSize)}
    (h : Run (Steps callStep) wsInitBuffer calls b) : Consistent b := by
  refine h.invariant (I := Consistent) consistent_init ?_
  intro b call b' hb hstep
  cases call with
  | filter c =>
    obtain ⟨r, hr, rfl⟩ := Option.map_eq_some_iff.mp hstep
    exact consistent_filter hb hr
  | clean srv fd =>
    obtain rfl := Option.some.inj hstep
    exact consistent_clean hb srv fd

/-- After any calls that return, the statistics agree with the slots; a call that is refused
then leaves the slots of all other descriptors as they are. -/
theorem buffer_account_exact {calls : List (Call inputBufferSize)}
    (h : Run (Steps callStep) wsInitBuffer calls b) :
    Consistent b ∧ ∀ (c : FilterCall inputBufferSize) (r : FilterResult),
      c.result b = some r → Refused r.status → OthersUntouched c.fd b.items r.ws.items :=
  ⟨consistent_run h, fun _ _ hr href => othersUntouched_of_refused (consistent_run h) hr href⟩

def frameStart (fd : Fd) (hfd : 0 < fd.toInt) : FilterCall 0x1000000#32 :=
  ⟨sessionStorageInit, fd, [0x81, 0x85, 1, 2, 3, 4, 9], 7, hfd, by decide, by decide, by decide⟩

def longRead : FilterCall 0x1000000#32 :=
  ⟨sessionStorageInit, 7, List.replicate 10000000 0x81, 10000000, by decide, by decide, by decide,
    List.length_replicate.ge⟩

/-- Two connections have sent the start of a frame, and one of them is torn down. -/
def startsAndClean : List (Call 0x1000000#32) :=
  [.filter (frameStart 5 (by decide)), .filter (frameStart 6 (by decide)),
    .clean ⟨⟨fun _ => 5, 1, 0⟩, wsInitBuffer, [], []⟩ 5]

theorem buffer_account_exact_startsAndClean :
    ∃ b r, Run (Steps callStep) wsInitBuffer startsAndClean b ∧ b.allocatedSize = 7 ∧ Consistent b ∧
      longRead.result b = some r ∧ r.status = .bufferExceededMax ∧
      OthersUntouched 7 b.items r.ws.items := by
  have hexec : (exec callStep wsInitBuffer startsAndClean).map (fun b => decide (b.allocatedSize = 7 ∧
      (longRead.result b).map FilterResult.status = some .bufferExceededMax)) = some true := by
    decide +kernel
  obtain ⟨b, hrun, hb, hlong⟩ := exists_run_of_exec hexec
  obtain ⟨r, hr, hstatus⟩ := Option.map_eq_some_iff.mp hlong
  obtain ⟨hacc, hothers⟩ := buffer_account_exact hrun
  exact ⟨b, r, hrun, hb, hacc, hr, hstatus, hothers longRead r hr (.inl hstatus)⟩

end StompBroker.BufferAccount
