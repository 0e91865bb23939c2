import StompBroker.Dataframe
import StompBroker.TransitionSystem

/-! What one iteration of the decode loop does with the frame at the front of the buffer, and
exactly which buffered bytes let the loop end. -/
namespace StompBroker.DecodeLoop
open CString SessionStorage WsBuffer Dataframe TransitionSystem

/-- Payload length, header length and mask of the text frame at the front of a block. -/
def textFront (r : List UInt8) : Option (ℕ × ℕ × List UInt8) :=
  match r with
  | b0 :: b1 :: _ => if b0 &&& 0xF = 1 then readLength r (b1 &&& 0x7f).toNat else none
  | _ => none

def opCode (r : List UInt8) : UInt8 := r.getD 0 0 &&& 0xF

/-- What is left in the slot after `k` bytes were consumed; nothing left is a null block. -/
def remaining (r : List UInt8) (k : ℕ) : Option (List UInt8) :=
  if k < r.length then some (r.drop k) else none

/-- The loop is about to look at the bytes `r`. -/
structure AtFront (s : LoopState) (r : List UInt8) : Prop where
  received : s.buff.received = some r
  frameLen : s.buff.frameLen = 0
  long : minDataFrameSize < r.length

/-- The loop state after a complete frame was taken from the front. -/
def LoopState.consume (s : LoopState) (r : List UInt8) (n header : ℕ) (mask : List UInt8) :
    LoopState :=
  { buff := { s.buff with
      mask := mask, frameLen := 0, received := remaining r (skipLen n + n) }
    allocated := s.allocated +
      (BitVec.ofNat 64 (r.length - n - skipLen n) - BitVec.ofNat 64 r.length)
    agDecodedData := some (s.agDecodedData.getD [] ++ unmask mask ((r.drop (skipLen n)).take n))
    fullFrameLen := .inr (n + header) }

theorem slice_eq {r : List UInt8} {start len : ℕ} (h : start + len ≤ r.length) :
    slice r start len = some ((r.drop start).take len) := by
  simp [slice, h]

theorem htons_lt (x : ℕ) : htons x < 65536 := by
  unfold htons
  omega

theorem skipLen_pos (n : ℕ) : 0 < skipLen n := by
  unfold skipLen
  split_ifs <;> omega

theorem skipLen_le (n : ℕ) : skipLen n ≤ 14 := by
  unfold skipLen
  split_ifs <;> omega

/-- A block longer than the smallest frame holds every header, and the decoder never skips more
than the header. -/
theorem readLength_spec {r : List UInt8} (code : ℕ) (h : minDataFrameSize < r.length) :
    ∃ n header mask, readLength r code = some (n, header, mask) ∧
      skipLen n ≤ header ∧ header ≤ 14 := by
  unfold minDataFrameSize at h
  unfold readLength
  split_ifs with h1 h2
  · refine ⟨code, 6, (r.drop 2).take 4, ?_, ?_, by omega⟩
    · rw [slice_eq (by omega)]
      rfl
    · simp [skipLen, h1]
  · refine ⟨htons (hostValue ((r.drop 2).take 2)), 8, (r.drop 4).take 4, ?_, ?_, by omega⟩
    · rw [slice_eq (by omega), slice_eq (by omega)]
      rfl
    · have := htons_lt (hostValue ((r.drop 2).take 2))
      unfold skipLen
      split_ifs <;> omega
  · refine ⟨ntohl64 (hostValue ((r.drop 2).take 8)), 14, (r.drop 10).take 4, ?_, skipLen_le _,
      by omega⟩
    rw [slice_eq (by omega), slice_eq (by omega)]
    rfl

theorem textFront_spec {r : List UInt8} {n header : ℕ} {mask : List UInt8}
    (h : minDataFrameSize < r.length) (ht : textFront r = some (n, header, mask)) :
    skipLen n ≤ header ∧ header ≤ 14 := by
  match r, ht with
  | b0 :: b1 :: bs, ht =>
    simp only [textFront] at ht
    split_ifs at ht
    obtain ⟨n', header', mask', hr, hs⟩ := readLength_spec (b1 &&& 0x7f).toNat h
    rw [hr] at ht
    simp only [Option.some.injEq, Prod.mk.injEq] at ht
    obtain ⟨rfl, rfl, rfl⟩ := ht
    exact hs

theorem readHeaders_of_not_text {buf : BufferItem} {r : List UInt8} (hr : buf.received = some r)
    (hlen : minDataFrameSize < r.length) (ht : textFront r = none) :
    opCode r ≠ 1 ∧ wsDataframeReadHeaders buf = some (
      if opCode r = 8 then (buf, .inl .opcodeClientDisconnect)
      else ({ buf with frameLen := 0 }, .inl .opcodeUnhandled)) := by
  match r, hr, hlen, ht with
  | [], _, hlen, _ => simp [minDataFrameSize] at hlen
  | [_], _, hlen, _ => simp [minDataFrameSize] at hlen
  | b0 :: b1 :: bs, hr, hlen, ht =>
    simp only [textFront] at ht
    split_ifs at ht with h1
    · obtain ⟨n, header, mask, hl, _⟩ := readLength_spec (b1 &&& 0x7f).toNat hlen
      rw [hl] at ht
      exact absurd ht (by simp)
    · refine ⟨h1, ?_⟩
      by_cases h8 : b0 &&& 0xF = 8
      · simp [wsDataframeReadHeaders, hr, opCode, h8]
      · simp [wsDataframeReadHeaders, hr, opCode, h8, h1]

theorem readHeaders_of_text {buf : BufferItem} {r : List UInt8} {n header : ℕ}
    {mask : List UInt8} (hr : buf.received = some r) (ht : textFront r = some (n, header, mask)) :
    wsDataframeReadHeaders buf = some (
      if n > wsDataFrameMaxLength then
        ({ buf with mask := mask, frameLen := 0 }, .inl .tooLargeDataframe)
      else ({ buf with mask := mask, frameLen := n }, .inr (n + header))) := by
  match r, hr, ht with
  | b0 :: b1 :: bs, hr, ht =>
    simp only [textFront] at ht
    split_ifs at ht with h1
    by_cases hn : n > wsDataFrameMaxLength
    · simp [wsDataframeReadHeaders, hr, h1, ht, hn, -UInt8.toNat_and]
    · simp [wsDataframeReadHeaders, hr, h1, ht, hn, -UInt8.toNat_and]

theorem decode_of_frame (fd : Fd) (mask : List UInt8) {n : ℕ} {r : List UInt8}
    (allocated : BitVec 64) (hpos : 0 < n) (hfit : skipLen n + n ≤ r.length) :
    wsDataframeDecode ⟨fd, mask, n, some r⟩ allocated = some (
      some (unmask mask ((r.drop (skipLen n)).take n)),
      ⟨fd, mask, 0, remaining r (skipLen n + n)⟩,
      allocated + (BitVec.ofNat 64 (r.length - n - skipLen n) - BitVec.ofNat 64 r.length)) := by
  have hz : ¬ n = 0 := by omega
  by_cases hrest : skipLen n + n < r.length
  · have hnew : r.length - n - skipLen n > 0 := by omega
    have hdrop : (r.drop (skipLen n + n)).length = r.length - n - skipLen n := by
      simp only [List.length_drop]
      omega
    have hsize : erealloc (some (r.drop (skipLen n + n))) (r.length - n - skipLen n) =
        some (r.drop (skipLen n + n)) := by
      rw [← hdrop]
      apply erealloc_same
      intro hnil
      simp [hnil] at hdrop
      omega
    simp [wsDataframeDecode, hz, slice_eq hfit, wsBufferResize, BufferItem.receivedLen,
      hnew, hsize, remaining, hrest]
  · have hnew : r.length - n - skipLen n = 0 := by omega
    simp [wsDataframeDecode, hz, slice_eq hfit, wsBufferResize, BufferItem.receivedLen,
      hnew, remaining, hrest]

variable {s : LoopState} {r : List UInt8} {n header : ℕ} {mask : List UInt8}

theorem AtFront.enters (h : AtFront s r) :
    s.buff.receivedLen > minDataFrameSize ∧ s.buff.frameLen = 0 := by
  refine ⟨?_, h.frameLen⟩
  rw [BufferItem.receivedLen, h.received]
  exact h.long

theorem iteration_of_not_text (h : AtFront s r) (ht : textFront r = none) :
    decodeIteration s = .leave { s with
      fullFrameLen := .inl (if opCode r = 8 then .opcodeClientDisconnect else .opcodeUnhandled) } := by
  have hh := (readHeaders_of_not_text h.received h.long ht).2
  have hbuff : { s.buff with frameLen := 0 } = s.buff := by rw [← h.frameLen]
  rw [hbuff] at hh
  rw [decodeIteration, if_pos h.enters, hh]
  split_ifs <;> rfl

theorem iteration_of_large (h : AtFront s r) (ht : textFront r = some (n, header, mask))
    (hn : wsDataFrameMaxLength < n) :
    decodeIteration s = .leave { s with
      buff := { s.buff with mask := mask, frameLen := 0 }, fullFrameLen := .inl .tooLargeDataframe } := by
  have hh := readHeaders_of_text h.received ht
  rw [if_pos hn] at hh
  rw [decodeIteration, if_pos h.enters, hh]

theorem iteration_of_part (h : AtFront s r) (ht : textFront r = some (n, header, mask))
    (hn : n ≤ wsDataFrameMaxLength) (hpart : r.length < n + header) :
    decodeIteration s = .leave { s with
      buff := { s.buff with mask := mask, frameLen := n }, fullFrameLen := .inr (n + header) } := by
  have hh := readHeaders_of_text h.received ht
  rw [if_neg (by omega)] at hh
  rw [decodeIteration, if_pos h.enters]
  simp [hh, BufferItem.receivedLen, h.received, hpart]

theorem iteration_of_empty (h : AtFront s r) (ht : textFront r = some (0, header, mask)) :
    decodeIteration s = match erealloc s.agDecodedData s.agDecodedDataLen with
      | none => .exit s.agDecodedDataLen
      | some block => .again s.agDecodedDataLen
          { s with
            buff := { s.buff with mask := mask, frameLen := 0 }
            agDecodedData := some (block.take s.agDecodedDataLen)
            fullFrameLen := .inr header } := by
  have hh := readHeaders_of_text h.received ht
  rw [if_neg (by omega)] at hh
  have hlong := h.long
  have hs := textFront_spec h.long ht
  unfold minDataFrameSize at hlong
  have hfit : ¬ r.length < header := by omega
  rw [decodeIteration, if_pos h.enters]
  cases hre : erealloc s.agDecodedData s.agDecodedDataLen with
  | none => simp [hh, BufferItem.receivedLen, h.received, hfit, wsDataframeDecode, hre]
  | some block => simp [hh, BufferItem.receivedLen, h.received, hfit, wsDataframeDecode, hre]

theorem iteration_of_frame (h : AtFront s r) (ht : textFront r = some (n, header, mask))
    (hpos : 0 < n) (hn : n ≤ wsDataFrameMaxLength) (hfull : n + header ≤ r.length) :
    decodeIteration s = .again (s.agDecodedDataLen + n) (LoopState.consume s r n header mask) := by
  have hh := readHeaders_of_text h.received ht
  rw [if_neg (by omega)] at hh
  have hs := textFront_spec h.long ht
  have hd := decode_of_frame s.buff.fd mask s.allocated hpos (r := r) (by omega)
  have hfit : ¬ r.length < n + header := by omega
  have hre := erealloc_grow s.agDecodedData hpos
  rw [decodeIteration, if_pos h.enters]
  simp [hh, BufferItem.receivedLen, h.received, hfit, hd, hre, LoopState.consume,
    LoopState.agDecodedDataLen]

theorem iteration_of_done (h : ¬ (s.buff.receivedLen > minDataFrameSize ∧ s.buff.frameLen = 0)) :
    decodeIteration s = .leave s := by
  rw [decodeIteration, if_neg h]

theorem decodeLoop_leave {t : LoopState} (h : decodeIteration s = .leave t) (fuel : ℕ) :
    decodeLoop (fuel + 1) s = some t := by
  simp only [decodeLoop, h]

theorem decodeLoop_again {t : LoopState} {size : ℕ} (h : decodeIteration s = .again size t)
    (fuel : ℕ) : decodeLoop (fuel + 1) s = decodeLoop fuel t := by
  simp only [decodeLoop, h]

/-- Behind complete text frames, each consumed as the decoder does it, stands a text frame
without payload in a block that is long enough to be looked at. -/
inductive EmptyFrameAhead : List UInt8 → Prop
  | here {r mask : List UInt8} {header : ℕ} (long : minDataFrameSize < r.length)
      (front : textFront r = some (0, header, mask)) : EmptyFrameAhead r
  | later {r mask : List UInt8} {n header : ℕ} (long : minDataFrameSize < r.length)
      (front : textFront r = some (n, header, mask)) (pos : 0 < n)
      (small : n ≤ wsDataFrameMaxLength) (full : n + header ≤ r.length)
      (ahead : EmptyFrameAhead (r.drop (skipLen n + n))) : EmptyFrameAhead r

/-- An iteration leaves the loop, or shortens the buffer after a request for a positive size. -/
def Progress (s : LoopState) : Iteration → Prop
  | .leave _ => True
  | .again size s' => size ≠ 0 ∧ s'.buff.receivedLen < s.buff.receivedLen
  | .exit _ => False
  | .fault => False

/-- The loop goes on from one state to the next; the event is the requested size. -/
def Again (s : LoopState) (size : ℕ) (s' : LoopState) : Prop := decodeIteration s = .again size s'

/-- The loop ends, and every iteration it makes is one of progress. -/
def LoopEnds (s : LoopState) : Prop :=
  (∃ fuel, (decodeLoop fuel s).isSome) ∧
    ∀ sizes t, Run Again s sizes t → Progress t (decodeIteration t)

theorem remaining_getD (r : List UInt8) (k : ℕ) : (remaining r k).getD [] = r.drop k := by
  unfold remaining
  split_ifs with h
  · rfl
  · simp [List.drop_eq_nil_of_le (Nat.le_of_not_lt h)]

theorem consume_receivedLen (s : LoopState) (r : List UInt8) (n header : ℕ) (mask : List UInt8) :
    (LoopState.consume s r n header mask).buff.receivedLen = r.length - (skipLen n + n) := by
  simp [BufferItem.receivedLen, LoopState.consume, remaining_getD]

theorem AtFront.receivedLen (h : AtFront s r) : s.buff.receivedLen = r.length := by
  simp [BufferItem.receivedLen, h.received]

/-- With an empty frame at the front an iteration makes no progress and, if the process
survives it, leaves the same bytes at the front. -/
theorem stuck_of_empty (h : AtFront s r) (ht : textFront r = some (0, header, mask)) :
    ¬ Progress s (decodeIteration s) ∧ ((∃ size, decodeIteration s = .exit size) ∨
      ∃ size s', decodeIteration s = .again size s' ∧ AtFront s' r) := by
  rw [iteration_of_empty h ht]
  cases erealloc s.agDecodedData s.agDecodedDataLen with
  | none => exact ⟨id, .inl ⟨_, rfl⟩⟩
  | some block =>
    refine ⟨?_, .inr ⟨_, _, rfl, h.received, rfl, h.long⟩⟩
    rintro ⟨_, hlt⟩
    simp [BufferItem.receivedLen] at hlt

theorem decodeLoop_of_empty (h : AtFront s r) (ht : textFront r = some (0, header, mask))
    (fuel : ℕ) : decodeLoop fuel s = none := by
  induction fuel generalizing s with
  | zero => rfl
  | succ fuel ih =>
    obtain ⟨_, ⟨size, he⟩ | ⟨size, s', he, h'⟩⟩ := stuck_of_empty h ht
    · simp [decodeLoop, he]
    · exact (decodeLoop_again he fuel).trans (ih h')

theorem atFront_consume (hlong : minDataFrameSize < (r.drop (skipLen n + n)).length) :
    AtFront (LoopState.consume s r n header mask) (r.drop (skipLen n + n)) := by
  refine ⟨?_, rfl, hlong⟩
  have hlt : skipLen n + n < r.length := by
    simp only [List.length_drop] at hlong
    omega
  simp [LoopState.consume, remaining, hlt]

theorem EmptyFrameAhead.long (h : EmptyFrameAhead r) : minDataFrameSize < r.length := by
  cases h with
  | here long _ => exact long
  | later long _ _ _ _ _ => exact long

theorem decodeLoop_of_emptyFrameAhead (hr : EmptyFrameAhead r) (h : AtFront s r) (fuel : ℕ) :
    decodeLoop fuel s = none := by
  induction hr generalizing s fuel with
  | here long front => exact decodeLoop_of_empty h front fuel
  | later long front pos small full ahead ih =>
    cases fuel with
    | zero => rfl
    | succ fuel =>
      rw [decodeLoop_again (iteration_of_frame h front pos small full)]
      exact ih (atFront_consume ahead.long) fuel

/-- Whatever stands at the front, an iteration is one of progress unless it meets an empty
frame, and it keeps an empty frame away. -/
theorem progress_of_not_ahead (h : AtFront s r) (hr : ¬ EmptyFrameAhead r) :
    (∃ s', decodeIteration s = .leave s') ∨
    ∃ n header mask, decodeIteration s = .again (s.agDecodedDataLen + n)
        (LoopState.consume s r n header mask) ∧ 0 < n ∧
      ¬ EmptyFrameAhead (r.drop (skipLen n + n)) := by
  cases ht : textFront r with
  | none => exact .inl ⟨_, iteration_of_not_text h ht⟩
  | some front =>
    obtain ⟨n, header, mask⟩ := front
    by_cases hlarge : wsDataFrameMaxLength < n
    · exact .inl ⟨_, iteration_of_large h ht hlarge⟩
    · by_cases hpart : r.length < n + header
      · exact .inl ⟨_, iteration_of_part h ht (by omega) hpart⟩
      · have hpos : 0 < n := by
          rcases Nat.eq_zero_or_pos n with hz | hpos
          · subst hz
            exact absurd (.here h.long ht) hr
          · exact hpos
        refine .inr ⟨n, header, mask,
          iteration_of_frame h ht hpos (by omega) (by omega), hpos, fun ahead => hr ?_⟩
        exact .later h.long ht hpos (by omega) (by omega) ahead

/-- The states of a loop that started without an empty frame ahead. -/
def Clear (s : LoopState) : Prop :=
  s.buff.frameLen = 0 ∧ ¬ EmptyFrameAhead (s.buff.received.getD [])

theorem atFront_of_long (hlen : s.buff.frameLen = 0) (h : s.buff.receivedLen > minDataFrameSize) :
    ∃ r, AtFront s r := by
  cases hr : s.buff.received with
  | none => simp [BufferItem.receivedLen, hr] at h
  | some r =>
    refine ⟨r, hr, hlen, ?_⟩
    simpa [BufferItem.receivedLen, hr] using h

theorem Clear.atFront (hc : Clear s) (h : s.buff.receivedLen > minDataFrameSize) :
    ∃ r, AtFront s r ∧ ¬ EmptyFrameAhead r := by
  obtain ⟨r, hr⟩ := atFront_of_long hc.1 h
  have hclear := hc.2
  rw [hr.received, Option.getD_some] at hclear
  exact ⟨r, hr, hclear⟩

theorem Clear.iteration (hc : Clear s) : (∃ s', decodeIteration s = .leave s') ∨
    ∃ size s', decodeIteration s = .again size s' ∧ size ≠ 0 ∧
      s'.buff.receivedLen < s.buff.receivedLen ∧ Clear s' := by
  by_cases hlong : s.buff.receivedLen > minDataFrameSize
  · obtain ⟨r, h, hr⟩ := hc.atFront hlong
    obtain hl | ⟨n, header, mask, he, hpos, hrest⟩ := progress_of_not_ahead h hr
    · exact .inl hl
    · have hskip := skipLen_pos n
      have hl := h.long
      unfold minDataFrameSize at hl
      refine .inr ⟨_, _, he, by omega, ?_, rfl, ?_⟩
      · rw [consume_receivedLen, h.receivedLen]
        omega
      · simpa [LoopState.consume, remaining_getD] using hrest
  · exact .inl ⟨s, iteration_of_done fun h => hlong h.1⟩

theorem Clear.progress (hc : Clear s) : Progress s (decodeIteration s) := by
  obtain ⟨s', he⟩ | ⟨size, s', he, hsize, hlt, _⟩ := hc.iteration
  · rw [he]
    trivial
  · rw [he]
    exact ⟨hsize, hlt⟩

theorem Clear.decodeLoop (hc : Clear s) {fuel : ℕ} (hf : s.buff.receivedLen < fuel) :
    ∃ t, decodeLoop fuel s = some t := by
  induction fuel generalizing s with
  | zero => omega
  | succ fuel ih =>
    obtain ⟨s', he⟩ | ⟨size, s', he, _, hlt, hc'⟩ := hc.iteration
    · exact ⟨s', decodeLoop_leave he fuel⟩
    · obtain ⟨t, ht⟩ := ih hc' (by omega)
      exact ⟨t, (decodeLoop_again he fuel).trans ht⟩

/-- With fuel for the buffered bytes the loop comes to no end exactly when it meets an empty frame. -/
theorem decodeLoop_eq_none_iff {fuel : ℕ} (hf : s.buff.receivedLen < fuel) :
    decodeLoop fuel s = none ↔ s.buff.frameLen = 0 ∧ EmptyFrameAhead (s.buff.received.getD []) := by
  constructor
  · intro hnone
    by_contra hno
    by_cases hlen : s.buff.frameLen = 0
    · obtain ⟨t, ht⟩ := Clear.decodeLoop ⟨hlen, fun hr => hno ⟨hlen, hr⟩⟩ hf
      rw [ht] at hnone
      cases hnone
    · obtain ⟨fuel, rfl⟩ : ∃ k, fuel = k + 1 := ⟨fuel - 1, by omega⟩
      rw [decodeLoop_leave (iteration_of_done fun h => hlen h.2)] at hnone
      cases hnone
  · rintro ⟨hlen, hr⟩
    have hlong : s.buff.receivedLen > minDataFrameSize := hr.long
    obtain ⟨r, h⟩ := atFront_of_long hlen hlong
    rw [h.received, Option.getD_some] at hr
    exact decodeLoop_of_emptyFrameAhead hr h fuel

theorem Clear.run (hc : Clear s) {sizes : List ℕ} {t : LoopState} (h : Run Again s sizes t) :
    Clear t := by
  refine h.invariant (I := Clear) hc ?_
  intro s size t hs hstep
  obtain ⟨s', he⟩ | ⟨size', s', he, _, _, hc'⟩ := hs.iteration
  · simp [Again, he] at hstep
  · rw [Again, he] at hstep
    cases hstep
    exact hc'

/-- The loop as it is entered over the bytes of a slot. -/
def loopEntry (fd : Fd) (mask : List UInt8) (allocated : BitVec 64) (bytes : List UInt8) :
    LoopState :=
  ⟨⟨fd, mask, 0, some bytes⟩, allocated, none, .inr 0⟩

/-- The decode loop ends with progress in every iteration exactly when no frame without payload
stands at a place that it will look at. -/
theorem loopEnds_iff (fd : Fd) (mask : List UInt8) (allocated : BitVec 64) (bytes : List UInt8) :
    LoopEnds (loopEntry fd mask allocated bytes) ↔ ¬ EmptyFrameAhead bytes := by
  constructor
  · rintro ⟨⟨fuel, hf⟩, _⟩ hr
    rw [decodeLoop_of_emptyFrameAhead hr ⟨rfl, rfl, hr.long⟩] at hf
    simp at hf
  · intro hr
    have hc : Clear (loopEntry fd mask allocated bytes) := ⟨rfl, hr⟩
    obtain ⟨t, ht⟩ := hc.decodeLoop (Nat.lt_succ_self _)
    exact ⟨⟨_, by rw [ht]; rfl⟩, fun sizes t hrun => (hc.run hrun).progress⟩

/-- A masked text frame of length zero, then bytes of the next frame. -/
def emptyFrame : List UInt8 := [0x81, 0x80, 0, 0, 0, 0, 0x81, 0x85, 1, 2, 3, 4, 5, 6, 7, 8, 9]

/-- The first iteration asks for zero bytes and goes on with all bytes still buffered; the
second one ends the process. -/
theorem emptyFrame_not_loopEnds : ¬ LoopEnds (loopEntry 5 [0, 0, 0, 0] 17 emptyFrame) := by
  rintro ⟨_, h⟩
  have hfirst : decodeIteration (loopEntry 5 [0, 0, 0, 0] 17 emptyFrame) =
      .again 0 ⟨⟨5, [0, 0, 0, 0], 0, some emptyFrame⟩, 17, some [], .inr 6⟩ := by decide
  have hp := h [] _ (.nil _)
  rw [hfirst] at hp
  exact hp.1 rfl

end StompBroker.DecodeLoop
