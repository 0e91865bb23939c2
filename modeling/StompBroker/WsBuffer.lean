import StompBroker.CString
import StompBroker.SessionStorage

/-! The reassembly buffer of the websocket layer: a fixed table of slots, one for each
connection with pending bytes, and the statistics kept about it. -/
namespace StompBroker.WsBuffer
open CString SessionStorage

/-- A slot. The received block and its length are one list; `none` is a null block. -/
structure BufferItem where
  fd : Fd
  mask : List UInt8
  frameLen : ℕ
  received : Option (List UInt8)
  deriving DecidableEq, Repr

def BufferItem.receivedLen (item : BufferItem) : ℕ := (item.received.getD []).length

/-- A slot of zero bytes. -/
def freeItem : BufferItem := ⟨0, [0, 0, 0, 0], 0, none⟩

/-- The slots with `ws_buffer_stat`. -/
structure Buffer where
  items : List BufferItem
  allocatedSize : BitVec 64
  hit : BitVec 64
  miss : BitVec 64
  deriving DecidableEq, Repr

def wsContinuationBuffer : ℕ := 1000
def wsMaxBufferSize : BitVec 64 := 10000000

def wsInitBuffer : Buffer := ⟨List.replicate wsContinuationBuffer freeItem, 0, 0, 0⟩

def wsBufferFind (b : Buffer) (fd : Fd) : Option ℕ × Buffer :=
  match b.items.findIdx? (fun item => item.fd == fd) with
  | some i => (some i, { b with hit := b.hit + 1 })
  | none => (none, { b with miss := b.miss + 1 })

def wsBufferFree (b : Buffer) : Option ℕ → Buffer
  | none => b
  | some i => { b with
      items := b.items.set i freeItem
      allocatedSize := b.allocatedSize - BitVec.ofNat 64 (b.items.getD i freeItem).receivedLen }

/-- Grow or shrink the block of a slot, with the change of the allocated size. -/
def wsBufferResize (item : BufferItem) (allocated : BitVec 64) (oldLen newLen : ℕ) :
    BufferItem × BitVec 64 :=
  ({ item with received := if newLen > 0 then erealloc item.received newLen else none },
    allocated + (BitVec.ofNat 64 newLen - BitVec.ofNat 64 oldLen))

/-- Computed in `size_t` and returned as an `int`. -/
def wsBufferSizeLeft (b : Buffer) (sizeLeft : ℕ) : ℤ :=
  ((wsMaxBufferSize - (b.allocatedSize + BitVec.ofNat 64 sizeLeft)).setWidth 32).toInt

def wsBufferAdd (b : Buffer) (fd : Fd) (buffer : List UInt8) (readLen : ℕ) : Option ℕ × Buffer :=
  match b.items.findIdx? (fun item => item.fd == 0) with
  | none => (none, b)
  | some i =>
      let item := b.items.getD i freeItem
      (some i, { b with
        items := b.items.set i { item with fd := fd, received := some (buffer.take readLen) }
        allocatedSize := b.allocatedSize + BitVec.ofNat 64 readLen })

end StompBroker.WsBuffer
