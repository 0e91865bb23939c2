import StompBroker.WsBuffer
import StompBroker.Message

/-! The websocket data frame filters. Reads of the reassembly buffer are checked: `none`
stands for an access outside the received block. -/
namespace StompBroker.Dataframe
open CString SessionStorage Message WsBuffer

inductive WsStatus
  | notADataframe | completeDataframe | incompleteDataframe | tooLargeDataframe
  | bufferExceededMax | bufferOutOfSlots | invalidHeader | opcodeClientDisconnect | opcodeUnhandled
  deriving DecidableEq, Repr

/-- `htons` and `ntohs` on a little-endian host. -/
def htons (x : ℕ) : ℕ := x % 256 * 256 + x / 256 % 256

/-- `htonl` and `ntohl` on a little-endian host. -/
def htonl (x : ℕ) : ℕ :=
  x % 256 * 2 ^ 24 + x / 2 ^ 8 % 256 * 2 ^ 16 + x / 2 ^ 16 % 256 * 2 ^ 8 + x / 2 ^ 24 % 256

/-- The swapped low word becomes the high word; the disjunction of the halves is their sum. -/
def ntohl64 (value : ℕ) : ℕ := htonl (value % 2 ^ 32) * 2 ^ 32 + htonl (value / 2 ^ 32)

/-- The value of bytes copied into an integer on a little-endian host. -/
def hostValue : List UInt8 → ℕ
  | [] => 0
  | b :: bs => b.toNat + 256 * hostValue bs

/-- The bytes of an integer of `n` bytes on a little-endian host. -/
def hostBytes : ℕ → ℕ → List UInt8
  | 0, _ => []
  | n + 1, x => UInt8.ofNat (x % 256) :: hostBytes n (x / 256)

/-- Bytes `start` to `start + len` of a block, if they lie inside. -/
def slice (block : List UInt8) (start len : ℕ) : Option (List UInt8) :=
  if start + len ≤ block.length then some ((block.drop start).take len) else none

def encodeWebsocketFrame (buffer : CStr) : List UInt8 :=
  let origLen := buffer.length + 1
  let payload := buffer ++ [0]
  if origLen < 126 then 0x81 :: UInt8.ofNat (origLen % 128) :: payload
  else if origLen < 65536 then 0x81 :: 126 :: hostBytes 2 (htons origLen) ++ payload
  else 0x81 :: 127 :: hostBytes 8 (ntohl64 origLen) ++ payload

/-- The bytes to send for a message; their number is what the filter returns. The NUL that
closes a STOMP text is sent with it, an HTTP answer goes without. -/
def wsOutputFilter (m : MessageWithFrameLen) : List UInt8 :=
  if sessionIsEncoded m.fd then encodeWebsocketFrame m.content
  else if strncasecmpEq m.content (lit "HTTP") 4 then m.content
  else m.content ++ [0]

/-- Byte 1 of the read buffer is looked at even when only one byte was read. -/
def wsChannelIsEncoded (storage : Storage) (fd : Fd) (buffer : List UInt8) : Bool × Storage :=
  if buffer.getD 1 0 &&& 0x80 ≠ 0 then (true, sessionStorageSetEncoded storage fd)
  else (sessionStorageIsEncoded storage fd, storage)

def minDataFrameSize : ℕ := 16
def wsDataFrameMaxLength : ℕ := 1000000

def readLength (r : List UInt8) (len : ℕ) : Option (ℕ × ℕ × List UInt8) :=
  if len < 126 then do
    let mask ← slice r 2 4
    return (len, 6, mask)
  else if len = 126 then do
    let sz16 ← slice r 2 2
    let mask ← slice r 4 4
    return (htons (hostValue sz16), 8, mask)
  else do
    let sz64 ← slice r 2 8
    let mask ← slice r 10 4
    return (ntohl64 (hostValue sz64), 14, mask)

/-- A negative status, or the length of header and payload together. -/
def wsDataframeReadHeaders (buf : BufferItem) : Option (BufferItem × (WsStatus ⊕ ℕ)) := do
  let r ← buf.received
  let b0 ← r[0]?
  let opCode := b0 &&& 0xF
  if opCode = 8 then return (buf, .inl .opcodeClientDisconnect)
  if opCode ≠ 1 then return ({ buf with frameLen := 0 }, .inl .opcodeUnhandled)
  let b1 ← r[1]?
  let (payloadLen, headerLen, mask) ← readLength r (b1 &&& 0x7f).toNat
  let buf := { buf with mask := mask }
  if payloadLen > wsDataFrameMaxLength then
    return ({ buf with frameLen := 0 }, .inl .tooLargeDataframe)
  return ({ buf with frameLen := payloadLen }, .inr (payloadLen + headerLen))

/-- Header bytes skipped by the decoder, guessed from the payload length. -/
def skipLen (len : ℕ) : ℕ := if len < 126 then 6 else if len < 65536 then 8 else 14

def unmask (mask payload : List UInt8) : List UInt8 :=
  payload.mapIdx fun i b => b ^^^ mask.getD (i % 4) 0

/-- The decoded payload, null for an empty one, and the slot without the frame. -/
def wsDataframeDecode (buf : BufferItem) (allocated : BitVec 64) :
    Option (Option (List UInt8) × BufferItem × BitVec 64) := do
  let len := buf.frameLen
  if len = 0 then return (none, buf, allocated)
  let skip := skipLen len
  let r ← buf.received
  let payload ← slice r skip len
  let newLen := buf.receivedLen - len - skip
  let shifted := { buf with received := some (r.drop (skip + len)) }
  let (item, allocated) := wsBufferResize shifted allocated buf.receivedLen newLen
  return (some (unmask buf.mask payload), { item with frameLen := 0 }, allocated)

/-- The variables of the decode loop: the slot, the allocated size, the decoded bytes so far
with a null pointer before the first frame, and the last result of the header parser. -/
structure LoopState where
  buff : BufferItem
  allocated : BitVec 64
  agDecodedData : Option (List UInt8)
  fullFrameLen : WsStatus ⊕ ℕ
  deriving DecidableEq, Repr

def LoopState.agDecodedDataLen (s : LoopState) : ℕ := (s.agDecodedData.getD []).length

/-- One evaluation of the loop condition and body. `again` and `exit` carry the size asked
from `erealloc`; `exit` ends the process. -/
inductive Iteration
  | leave (s : LoopState)
  | again (size : ℕ) (s : LoopState)
  | exit (size : ℕ)
  | fault
  deriving DecidableEq, Repr

def decodeIteration (s : LoopState) : Iteration :=
  if s.buff.receivedLen > minDataFrameSize ∧ s.buff.frameLen = 0 then
    match wsDataframeReadHeaders s.buff with
    | none => .fault
    | some (buff, .inl status) => .leave { s with buff := buff, fullFrameLen := .inl status }
    | some (buff, .inr full) =>
        if buff.receivedLen < full then .leave { s with buff := buff, fullFrameLen := .inr full }
        else match wsDataframeDecode buff s.allocated with
          | none => .fault
          | some (decoded, buff', allocated) =>
              let size := s.agDecodedDataLen + buff.frameLen
              match erealloc s.agDecodedData size with
              | none => .exit size
              | some block => .again size ⟨buff', allocated,
                  some (block.take s.agDecodedDataLen ++ decoded.getD []), .inr full⟩
  else .leave s

/-- The loop with bounded iterations; `none` while it is still running at the bound, and when
the process ends inside it. -/
def decodeLoop : ℕ → LoopState → Option LoopState
  | 0, _ => none
  | fuel + 1, s =>
      match decodeIteration s with
      | .leave s => some s
      | .again _ s => decodeLoop fuel s
      | .exit _ => none
      | .fault => none

structure FilterResult where
  status : WsStatus
  out : Option (List UInt8)
  decodedBufLen : ℕ
  storage : Storage
  ws : Buffer

/-- From the loop to the return: free an empty slot, hand out the decoded bytes. Every
iteration that goes on consumes bytes or repeats itself for ever, so the buffered length
bounds the iterations of a loop that ends. -/
def decodeBuffered (storage : Storage) (ws : Buffer) (i : ℕ) : Option FilterResult := do
  let buff := ws.items.getD i freeItem
  let s ← decodeLoop (buff.receivedLen + 1) ⟨buff, ws.allocatedSize, none, .inr 0⟩
  let ws := { ws with items := ws.items.set i s.buff, allocatedSize := s.allocated }
  let ws := if s.buff.received = none then wsBufferFree ws (some i) else ws
  let status := match s.fullFrameLen with
    | .inl status => status
    | .inr _ => if s.agDecodedData ≠ none then .completeDataframe else .incompleteDataframe
  return ⟨status, s.agDecodedData, s.agDecodedDataLen - 1, storage, ws⟩

/-- `none` when the call does not return. -/
def wsInputFilterDataframe (storage : Storage) (ws : Buffer) (fd : Fd) (buffer : List UInt8)
    (readLen : ℕ) : Option FilterResult :=
  let (encoded, storage) := wsChannelIsEncoded storage fd buffer
  if encoded then
    let (wsBuff, ws) := wsBufferFind ws fd
    if wsBufferSizeLeft ws readLen < 0 then
      some ⟨.bufferExceededMax, none, 0, storage, wsBufferFree ws wsBuff⟩
    else match wsBuff with
      | some i =>
          let item := ws.items.getD i freeItem
          let oldLen := item.receivedLen
          let (grown, allocated) := wsBufferResize item ws.allocatedSize oldLen (oldLen + readLen)
          let item := { grown with
            received := some ((grown.received.getD []).take oldLen ++ buffer.take readLen)
            frameLen := 0 }
          decodeBuffered storage
            { ws with items := ws.items.set i item, allocatedSize := allocated } i
      | none =>
          match wsBufferAdd ws fd buffer readLen with
          | (none, ws) => some ⟨.bufferOutOfSlots, none, 0, storage, ws⟩
          | (some i, ws) => decodeBuffered storage ws i
  else some ⟨.notADataframe, none, 0, storage, ws⟩

@[simp] theorem length_hostBytes (n x : ℕ) : (hostBytes n x).length = n := by
  induction n generalizing x with
  | zero => rfl
  | succ n ih => simp [hostBytes, ih]

theorem length_encodeWebsocketFrame (buffer : CStr) :
    (encodeWebsocketFrame buffer).length = buffer.length + 1 +
      (if buffer.length < 125 then 2 else if buffer.length < 65535 then 4 else 10) := by
  by_cases h1 : buffer.length < 125
  · have h : buffer.length + 1 < 126 := by omega
    simp [encodeWebsocketFrame, h, h1]
  · have h : ¬ buffer.length + 1 < 126 := by omega
    by_cases h2 : buffer.length < 65535
    · have h' : buffer.length + 1 < 65536 := by omega
      simp [encodeWebsocketFrame, h, h', h1, h2]
      omega
    · have h' : ¬ buffer.length + 1 < 65536 := by omega
      simp [encodeWebsocketFrame, h, h', h1, h2]
      omega

end StompBroker.Dataframe
