import StompBroker.TextFrame

/-! The two sides of the websocket framing against each other: the predicted and the sent length
of a message, the encoder and the decoder, the header that was parsed and the header that is
skipped, and the bytes the decode loop touches. -/
namespace StompBroker.FrameCodec
open CString SessionStorage Message WsBuffer Dataframe DecodeLoop TextFrame

/-- The value of `ws_output_filter`: the encoder returns its length as an `int`. -/
def wsOutputFilterLen (m : MessageWithFrameLen) : BitVec 64 :=
  if sessionIsEncoded m.fd then (BitVec.ofNat 32 (wsOutputFilter m).length).signExtend 64
  else BitVec.ofNat 64 (wsOutputFilter m).length

def plainHeader (n : ℕ) : ℕ := if n < 126 then 2 else if n < 65536 then 4 else 10

theorem length_encode_plainHeader (s : CStr) :
    (encodeWebsocketFrame s).length = plainHeader (s.length + 1) + (s.length + 1) := by
  rw [length_encodeWebsocketFrame, plainHeader]
  split_ifs <;> omega

theorem frameLen_encoded {fd : Fd} (hfd : 0 < fd.toInt) (he : sessionIsEncoded fd = true) (s : CStr) :
    (messageCreateWithFrameLen fd s).frameLen = plainHeader s.length + (s.length + 1) := by
  simp only [messageCreateWithFrameLen, hfd, he, if_true, plainHeader]
  split_ifs <;> omega

/-- The header grows between a text and the text with its NUL at two lengths only. -/
theorem plainHeader_succ_iff (n : ℕ) : plainHeader (n + 1) = plainHeader n ↔ n ≠ 125 ∧ n ≠ 65535 := by
  unfold plainHeader
  split_ifs <;> omega

theorem signExtend_ofNat_eq_iff {n : ℕ} (hn : n < 2 ^ 64 - 2 ^ 31) :
    (BitVec.ofNat 32 n).signExtend 64 = BitVec.ofNat 64 n ↔ n < 2 ^ 31 := by
  have hnat : ((BitVec.ofNat 32 n).signExtend 64).toNat =
      n % 2 ^ 32 + if 2 ^ 31 ≤ n % 2 ^ 32 then 2 ^ 64 - 2 ^ 32 else 0 := by
    rw [BitVec.toNat_signExtend, BitVec.msb_eq_decide, BitVec.toNat_setWidth, BitVec.toNat_ofNat,
      Nat.mod_eq_of_lt (show n % 2 ^ 32 < 2 ^ 64 by omega)]
    simp
  rw [← BitVec.toNat_inj, hnat, BitVec.toNat_ofNat, Nat.mod_eq_of_lt (show n < 2 ^ 64 by omega)]
  split_ifs <;> omega

/-- The predicted length of a text is the length the filter returns, except for an encoded session
where the NUL lifts the payload into the next length class or the length does not fit an `int`. -/
theorem predicted_length_iff {fd : Fd} {s : CStr} (hfd : 0 < fd.toInt) (hs : s.length < 2 ^ 63)
    (hhttp : strncasecmpEq s (lit "HTTP") 4 = false) :
    wsOutputFilterLen (messageCreateWithFrameLen fd s) =
        BitVec.ofNat 64 (messageCreateWithFrameLen fd s).frameLen ↔
      (sessionIsEncoded fd = true → s.length ≠ 125 ∧ s.length ≠ 65535 ∧ s.length + 11 < 2 ^ 31) := by
  cases he : sessionIsEncoded fd with
  | false =>
    simp [wsOutputFilterLen, wsOutputFilter, messageCreateWithFrameLen, he, hhttp, hfd]
  | true =>
    have hfilter : wsOutputFilter (messageCreateWithFrameLen fd s) = encodeWebsocketFrame s := by
      simp [wsOutputFilter, he]
    have hlen : wsOutputFilterLen (messageCreateWithFrameLen fd s) =
        (BitVec.ofNat 32 (plainHeader (s.length + 1) + (s.length + 1))).signExtend 64 := by
      rw [wsOutputFilterLen, hfilter, messageCreateWithFrameLen_fd, he, if_pos rfl,
        length_encode_plainHeader]
    rw [hlen, frameLen_encoded hfd he]
    by_cases hstep : plainHeader (s.length + 1) = plainHeader s.length
    · have hbig : plainHeader s.length + (s.length + 1) < 2 ^ 31 ↔ s.length + 11 < 2 ^ 31 := by
        unfold plainHeader
        split_ifs <;> omega
      have hle : plainHeader s.length ≤ 10 := by
        unfold plainHeader
        split_ifs <;> omega
      rw [hstep, signExtend_ofNat_eq_iff (by omega), hbig]
      have hclass := (plainHeader_succ_iff s.length).1 hstep
      simp [hclass.1, hclass.2]
    · -- at the two boundaries both lengths are small and differ
      have hclass : s.length = 125 ∨ s.length = 65535 := by
        by_contra hno
        exact hstep ((plainHeader_succ_iff s.length).2 (not_or.1 hno))
      rcases hclass with h | h
      · rw [h]
        decide
      · rw [h]
        decide

theorem predicted_length_iff_receipt :
    wsOutputFilterLen (messageReceipt (sessionSetEncoded 5) (lit "7")) =
      BitVec.ofNat 64 (messageReceipt (sessionSetEncoded 5) (lit "7")).frameLen :=
  (predicted_length_iff (by decide) (by decide) (by decide)).2 fun _ => by decide

/-- The longest text for which the prediction still counts the short header. -/
def boundaryText : CStr := List.replicate 125 65

theorem boundaryText_sent_longer :
    0 < (sessionSetEncoded 5).toInt ∧ (0 : UInt8) ∉ boundaryText ∧
      strncasecmpEq boundaryText (lit "HTTP") 4 = false ∧
      (messageCreateWithFrameLen (sessionSetEncoded 5) boundaryText).frameLen = 128 ∧
      wsOutputFilterLen (messageCreateWithFrameLen (sessionSetEncoded 5) boundaryText) = 130 := by
  decide +kernel

/-- A frame of the broker as a client sends it: with the mask bit, the mask behind the length field
and the payload under the mask. -/
def clientFrame (mask : List UInt8) : List UInt8 → List UInt8
  | b0 :: b1 :: rest =>
      let ext := if b1 = 126 then 2 else if b1 = 127 then 8 else 0
      b0 :: (b1 ||| 0x80) :: (rest.take ext ++ mask ++ unmask mask (rest.drop ext))
  | frame => frame

theorem hostBytes_hostValue (bs : List UInt8) : hostBytes bs.length (hostValue bs) = bs := by
  induction bs with
  | nil => rfl
  | cons b bs ih =>
    have hb := b.toNat_lt
    have hlow : (b.toNat + 256 * hostValue bs) % 256 = b.toNat := by omega
    have hhigh : (b.toNat + 256 * hostValue bs) / 256 = hostValue bs := by omega
    simp only [List.length_cons, hostValue, hostBytes, hlow, hhigh, ih, UInt8.ofNat_toNat]

theorem hostBytes_htons {n : ℕ} (hn : n < 65536) : hostBytes 2 (htons n) = (hostBytes 2 n).reverse := by
  have hv := hostValue_hostBytes (k := 2) (n := n) (by omega)
  have hb : hostBytes 2 n = [UInt8.ofNat (n % 256), UInt8.ofNat (n / 256 % 256)] := rfl
  rw [hb] at hv ⊢
  have hswap := htons_hostValue (UInt8.ofNat (n % 256)) (UInt8.ofNat (n / 256 % 256))
  rw [hv] at hswap
  rw [hswap]
  exact hostBytes_hostValue [_, _]

theorem hostBytes_ntohl64 {n : ℕ} (hn : n < 2 ^ 64) : hostBytes 8 (ntohl64 n) = (hostBytes 8 n).reverse := by
  have hlen : (hostBytes 8 n).reverse.length = 8 := by simp
  have hswap := ntohl64_hostValue _ hlen
  rw [List.reverse_reverse, hostValue_hostBytes (k := 8) (by omega)] at hswap
  have hback := hostBytes_hostValue (hostBytes 8 n).reverse
  rwa [hlen, ← hswap] at hback

theorem maskBit_lengthCode {n : ℕ} (hn : n < 126) :
    UInt8.ofNat (n % 128) ≠ 126 ∧ UInt8.ofNat (n % 128) ≠ 127 ∧
      UInt8.ofNat (n % 128) ||| 0x80 = UInt8.ofNat (0x80 + n) := by
  have htable : ∀ k : Fin 126, UInt8.ofNat (k % 128) ≠ 126 ∧ UInt8.ofNat (k % 128) ≠ 127 ∧
      UInt8.ofNat (k % 128) ||| 0x80 = UInt8.ofNat (0x80 + k) := by decide
  exact htable ⟨n, hn⟩

theorem clientFrame_split (mask ext payload : List UInt8) (b0 b1 : UInt8)
    (h : ext.length = if b1 = 126 then 2 else if b1 = 127 then 8 else 0) :
    clientFrame mask (b0 :: b1 :: ext ++ payload) =
      b0 :: ((b1 ||| 0x80) :: ext ++ mask) ++ unmask mask payload := by
  simp only [clientFrame, List.cons_append, ← h, List.take_left, List.drop_left]

theorem clientFrame_encode {s : CStr} (mask : List UInt8) (hs : s.length + 1 < 2 ^ 64) :
    clientFrame mask (encodeWebsocketFrame s) = wireBytes 0x81 mask (s ++ [0]) := by
  have hlen : (s ++ [0]).length = s.length + 1 := by simp
  unfold encodeWebsocketFrame wireBytes lengthField
  rw [hlen]
  dsimp only
  split_ifs with h1 h2
  · obtain ⟨hne1, hne2, hbit⟩ := maskBit_lengthCode h1
    rw [← hbit]
    exact clientFrame_split mask [] (s ++ [0]) 0x81 (UInt8.ofNat ((s.length + 1) % 128))
      (by simp [hne1, hne2])
  · rw [← hostBytes_htons h2]
    exact clientFrame_split mask _ (s ++ [0]) 0x81 126 (by simp)
  · rw [← hostBytes_ntohl64 hs]
    exact clientFrame_split mask _ (s ++ [0]) 0x81 127 (by simp)

theorem decode_wireBytes {first : UInt8} {mask payload r : List UInt8} {buf : BufferItem}
    (ho : first &&& 0xF = 1) (hm : mask.length = 4) (hpos : 0 < payload.length)
    (hsmall : payload.length ≤ wsDataFrameMaxLength)
    (hr : buf.received = some (wireBytes first mask payload ++ r)) (allocated : BitVec 64) :
    ∃ parsed rest allocated',
      wsDataframeReadHeaders buf = some (parsed, .inr (wireBytes first mask payload).length) ∧
      wsDataframeDecode parsed allocated = some (some payload, rest, allocated') ∧
      rest.received = blockOf r := by
  have hwire : (wireBytes first mask payload).length = _ := length_wireBytes hm
  have hfit : skipLen payload.length + payload.length ≤ (wireBytes first mask payload ++ r).length := by
    rw [List.length_append, hwire]
    omega
  have hlt : payload.length < 2 ^ 64 := by
    unfold wsDataFrameMaxLength at hsmall
    omega
  have hread := readHeaders_of_text hr (textFront_wireBytes hm ho hlt r)
  rw [if_neg (by omega), Nat.add_comm, ← hwire, hr] at hread
  have hdecode := decode_of_frame buf.fd mask allocated hpos hfit
  rw [unmask_drop_wireBytes hm, ← hwire, remaining_left] at hdecode
  exact ⟨_, _, _, hread, hdecode, rfl⟩

/-- Decoding inverts encoding, whatever follows the frame in the buffer. -/
theorem decode_encode_websocket {s : CStr} {mask r : List UInt8} {buf : BufferItem} (hs : s.length + 1 ≤ 1000000)
    (hm : mask.length = 4)
    (hr : buf.received = some (clientFrame mask (encodeWebsocketFrame s) ++ r)) (allocated : BitVec 64) :
    ∃ parsed rest allocated',
      wsDataframeReadHeaders buf =
        some (parsed, .inr (clientFrame mask (encodeWebsocketFrame s)).length) ∧
      wsDataframeDecode parsed allocated = some (some (s ++ [0]), rest, allocated') ∧
      rest.received = blockOf r := by
  rw [clientFrame_encode mask (by omega)] at hr ⊢
  exact decode_wireBytes (by decide) hm (by simp) (by simpa [wsDataFrameMaxLength] using hs) hr allocated

/-- A buffer with the CONNECT of a client and the first byte of its next frame. -/
def connectBuffer : BufferItem :=
  ⟨5, [0, 0, 0, 0], 0, some (clientFrame [1, 2, 3, 4] (encodeWebsocketFrame (lit "CONNECT\n\n")) ++ [0x81])⟩

theorem decode_encode_websocket_connect :
    ∃ parsed rest allocated', wsDataframeReadHeaders connectBuffer = some (parsed, .inr 16) ∧
      wsDataframeDecode parsed 17 = some (some (lit "CONNECT\n\n" ++ [0]), rest, allocated') ∧
      rest.received = blockOf [0x81] :=
  @decode_encode_websocket (lit "CONNECT\n\n") [1, 2, 3, 4] [0x81] connectBuffer (by decide) rfl rfl 17

def lengthCode (r : List UInt8) : ℕ := (r.getD 1 0 &&& 0x7f).toNat

def headerLen (code : ℕ) : ℕ := if code < 126 then 6 else if code = 126 then 8 else 14

def Minimal (code n : ℕ) : Prop := code < 126 ∨ (code = 126 ∧ 126 ≤ n) ∨ (code = 127 ∧ 65536 ≤ n)

instance (code n : ℕ) : Decidable (Minimal code n) :=
  inferInstanceAs (Decidable (_ ∨ _ ∨ _))

theorem lengthCode_lt (r : List UInt8) : lengthCode r < 128 := by
  rw [lengthCode, UInt8.toNat_and, show (0x7f : UInt8).toNat = 2 ^ 7 - 1 from rfl,
    Nat.and_two_pow_sub_one_eq_mod]
  exact Nat.mod_lt _ (by omega)

/-- The header length follows from the length code, and the decoder's guess agrees with it exactly
for the minimal code. -/
theorem textFront_code {r mask : List UInt8} {n header : ℕ} (h : textFront r = some (n, header, mask)) :
    header = headerLen (lengthCode r) ∧ (skipLen n = header ↔ Minimal (lengthCode r) n) := by
  have hcode := lengthCode_lt r
  match r, h with
  | b0 :: b1 :: bs, h =>
    have hc : lengthCode (b0 :: b1 :: bs) = (b1 &&& 0x7f).toNat := rfl
    simp only [textFront] at h
    split_ifs at h
    rw [← hc, readLength] at h
    split_ifs at h with h1 h2
    · obtain ⟨mask', -, h⟩ := Option.bind_eq_some_iff.mp h
      simp only [pure, Option.some.injEq, Prod.mk.injEq] at h
      obtain ⟨rfl, rfl, -⟩ := h
      simp [headerLen, Minimal, skipLen, h1]
    · obtain ⟨sz16, -, h⟩ := Option.bind_eq_some_iff.mp h
      obtain ⟨mask', -, h⟩ := Option.bind_eq_some_iff.mp h
      simp only [pure, Option.some.injEq, Prod.mk.injEq] at h
      obtain ⟨rfl, rfl, -⟩ := h
      have := htons_lt (hostValue sz16)
      refine ⟨by simp [headerLen, h2], ?_⟩
      unfold skipLen Minimal
      split_ifs <;> omega
    · obtain ⟨sz64, -, h⟩ := Option.bind_eq_some_iff.mp h
      obtain ⟨mask', -, h⟩ := Option.bind_eq_some_iff.mp h
      simp only [pure, Option.some.injEq, Prod.mk.injEq] at h
      obtain ⟨rfl, rfl, -⟩ := h
      refine ⟨by simp [headerLen, h1, h2], ?_⟩
      unfold skipLen Minimal
      split_ifs <;> omega

theorem textFront_of_readHeaders {buf parsed : BufferItem} {r : List UInt8} {full : ℕ}
    (hr : buf.received = some r) (hlong : minDataFrameSize < r.length)
    (h : wsDataframeReadHeaders buf = some (parsed, .inr full)) :
    ∃ n header mask, textFront r = some (n, header, mask) ∧ n ≤ wsDataFrameMaxLength ∧
      parsed = { buf with mask := mask, frameLen := n } ∧ full = n + header := by
  cases ht : textFront r with
  | none =>
    rw [(readHeaders_of_not_text hr hlong ht).2] at h
    split_ifs at h <;> simp at h
  | some front =>
    obtain ⟨n, header, mask⟩ := front
    rw [readHeaders_of_text hr ht] at h
    split_ifs at h with hn
    · simp at h
    · simp only [Option.some.injEq, Prod.mk.injEq, Sum.inr.injEq] at h
      exact ⟨n, header, mask, rfl, by omega, h.1.symm, h.2.symm⟩

/-- The decoder returns the payload behind the parsed header and takes off exactly the parsed frame, exactly
when the client used the minimal length code. -/
theorem decode_consumes_parsed_iff {buf parsed : BufferItem} {r : List UInt8} {full : ℕ}
    (hr : buf.received = some r) (hlong : minDataFrameSize < r.length)
    (h : wsDataframeReadHeaders buf = some (parsed, .inr full)) (hpos : 0 < parsed.frameLen)
    (hfull : full ≤ r.length) (allocated : BitVec 64) :
    (∃ rest allocated', wsDataframeDecode parsed allocated =
        some (some (unmask parsed.mask ((r.drop (headerLen (lengthCode r))).take parsed.frameLen)),
          rest, allocated') ∧
      rest.received = remaining r full) ↔ Minimal (lengthCode r) parsed.frameLen := by
  obtain ⟨n, header, mask, ht, -, rfl, rfl⟩ := textFront_of_readHeaders hr hlong h
  obtain ⟨hheader, hminimal⟩ := textFront_code ht
  have hskip := (textFront_spec hlong ht).1
  dsimp only at hpos ⊢
  have hdecode := decode_of_frame buf.fd mask allocated hpos (r := r) (by omega)
  rw [hr, hdecode, ← hminimal, ← hheader]
  constructor
  · rintro ⟨rest, allocated', hd, hrest⟩
    simp only [Option.some.injEq, Prod.mk.injEq] at hd
    rw [← hd.2.1] at hrest
    have hlen := congrArg (fun block => (block.getD []).length) hrest
    simp only [remaining_getD, List.length_drop] at hlen
    omega
  · intro hs
    rw [hs, Nat.add_comm header n]
    exact ⟨_, _, rfl, rfl⟩

/-- Five bytes under a 16-bit length, then the start of the next frame. -/
def wideBuffer : BufferItem :=
  ⟨5, [0, 0, 0, 0], 0, some [0x81, 0xFE, 0, 5, 1, 1, 1, 1, 0x49, 0x48, 0x4b, 0x4a, 0x4d, 0x81, 0x85, 2, 2]⟩

def narrowBuffer : BufferItem :=
  ⟨5, [0, 0, 0, 0], 0, some [0x81, 0x85, 1, 1, 1, 1, 0x49, 0x48, 0x4b, 0x4a, 0x4d, 0x81, 0x85, 2, 2, 2, 2]⟩

theorem decode_consumes_parsed_iff_narrow :
    ∃ rest allocated', wsDataframeDecode { narrowBuffer with mask := [1, 1, 1, 1], frameLen := 5 } 17 =
        some (some (unmask [1, 1, 1, 1] [0x49, 0x48, 0x4b, 0x4a, 0x4d]), rest, allocated') ∧
      rest.received = some [0x81, 0x85, 2, 2, 2, 2] :=
  (@decode_consumes_parsed_iff narrowBuffer _ _ _ rfl (by decide) rfl (by decide) (by decide) 17).2 (by decide)

/-- The parser counts thirteen bytes; the decoder reads two of them too early and leaves two behind. -/
theorem wideBuffer_misaligned :
    wsDataframeReadHeaders wideBuffer = some ({ wideBuffer with mask := [1, 1, 1, 1], frameLen := 5 }, .inr 13) ∧
    (wsDataframeDecode { wideBuffer with mask := [1, 1, 1, 1], frameLen := 5 } 17).map
        (fun p => (p.1, p.2.1.received)) =
      some (some (unmask [1, 1, 1, 1] [1, 1, 0x49, 0x48, 0x4b]), some [0x4a, 0x4d, 0x81, 0x85, 2, 2]) := by
  decide

/-- The indices of `received` that the header parser reads, in its order. -/
def headerAccesses (r : List UInt8) : List ℕ :=
  if r.getD 0 0 &&& 0xF = 1 then
    0 :: 1 ::
      if lengthCode r < 126 then List.range' 2 4
      else if lengthCode r = 126 then List.range' 2 2 ++ List.range' 4 4
      else List.range' 2 8 ++ List.range' 10 4
  else [0]

/-- The indices of `received` that the decoder reads and writes: the payload, and the bytes behind the
frame with the places they are moved to. -/
def decodeAccesses (len receivedLen : ℕ) : List ℕ :=
  if len = 0 then []
  else (List.range len).map (· + skipLen len) ++
    (List.range (receivedLen - len - skipLen len)).flatMap fun i => [skipLen len + len + i, i]

theorem headerAccesses_lt {r : List UInt8} (h : minDataFrameSize < r.length) :
    ∀ i ∈ headerAccesses r, i < r.length := by
  intro i hi
  unfold minDataFrameSize at h
  unfold headerAccesses at hi
  split_ifs at hi <;> simp [List.mem_range'] at hi <;> omega

theorem decodeAccesses_lt {len receivedLen : ℕ} (h : skipLen len + len ≤ receivedLen) :
    ∀ i ∈ decodeAccesses len receivedLen, i < receivedLen := by
  intro i hi
  unfold decodeAccesses at hi
  split_ifs at hi with h0
  · simp at hi
  · simp only [List.mem_append, List.mem_map, List.mem_range, List.mem_flatMap, List.mem_cons,
      List.not_mem_nil, or_false] at hi
    rcases hi with ⟨k, hk, rfl⟩ | ⟨k, hk, rfl | rfl⟩ <;> omega

theorem iteration_ne_fault {s : LoopState} {r : List UInt8} (h : AtFront s r) :
    decodeIteration s ≠ .fault := by
  cases ht : textFront r with
  | none => simp [iteration_of_not_text h ht]
  | some front =>
    obtain ⟨n, header, mask⟩ := front
    by_cases hlarge : wsDataFrameMaxLength < n
    · simp [iteration_of_large h ht hlarge]
    by_cases hpart : r.length < n + header
    · simp [iteration_of_part h ht (by omega) hpart]
    rcases Nat.eq_zero_or_pos n with rfl | hpos
    · rw [iteration_of_empty h ht]
      cases erealloc s.agDecodedData s.agDecodedDataLen <;> simp
    · simp [iteration_of_frame h ht hpos (by omega) (by omega)]

/-- Whatever stands in the buffer, an iteration of the decode loop reads and writes inside it. -/
theorem iteration_in_bounds (s : LoopState)
    (h : s.buff.receivedLen > minDataFrameSize ∧ s.buff.frameLen = 0) :
    decodeIteration s ≠ .fault ∧
    (∀ i ∈ headerAccesses (s.buff.received.getD []), i < s.buff.receivedLen) ∧
    ∀ parsed full, wsDataframeReadHeaders s.buff = some (parsed, .inr full) →
      full < 2 ^ 31 ∧ parsed.receivedLen = s.buff.receivedLen ∧
      (¬ parsed.receivedLen < full →
        parsed.frameLen + skipLen parsed.frameLen ≤ parsed.receivedLen ∧
        ∀ i ∈ decodeAccesses parsed.frameLen parsed.receivedLen, i < parsed.receivedLen) := by
  obtain ⟨hlong, hzero⟩ := h
  cases hr : s.buff.received with
  | none => simp [BufferItem.receivedLen, hr] at hlong
  | some r =>
    have hlen : s.buff.receivedLen = r.length := by simp [BufferItem.receivedLen, hr]
    rw [hlen] at hlong
    rw [hlen, Option.getD_some]
    refine ⟨iteration_ne_fault ⟨hr, hzero, hlong⟩, headerAccesses_lt hlong, ?_⟩
    intro parsed full hparse
    obtain ⟨n, header, mask, ht, hmax, rfl, rfl⟩ := textFront_of_readHeaders hr hlong hparse
    obtain ⟨hskip, hheader⟩ := textFront_spec hlong ht
    have hparsed : BufferItem.receivedLen { s.buff with mask := mask, frameLen := n } = r.length := hlen
    unfold wsDataFrameMaxLength at hmax
    rw [hparsed]
    refine ⟨by omega, rfl, fun hfull => ⟨?_, decodeAccesses_lt ?_⟩⟩
    · dsimp only
      omega
    · dsimp only
      omega

theorem iteration_in_bounds_wide :
    decodeIteration ⟨wideBuffer, 17, none, .inr 0⟩ ≠ .fault ∧
      ∀ i ∈ headerAccesses (wideBuffer.received.getD []), i < 17 :=
  have h := iteration_in_bounds ⟨wideBuffer, 17, none, .inr 0⟩ (by decide)
  ⟨h.1, h.2.1⟩

end StompBroker.FrameCodec
