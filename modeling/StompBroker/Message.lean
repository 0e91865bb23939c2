import StompBroker.AssociativeArray
import StompBroker.SessionStorage

/-! Messages of the input and output queues, and the frames the broker sends. -/
namespace StompBroker.Message
open CString AssociativeArray SessionStorage

/-- An element of the input queue; `ts` is a processor clock value. -/
structure MessageWithTimestamp where
  fd : Fd
  content : CStr
  ts : ℤ
  deriving DecidableEq, Repr

def messageCreateWithTimestamp (fd : Fd) (str : CStr) (ts : ℤ) : MessageWithTimestamp :=
  ⟨fd, str, ts⟩

/-- An element of the output queue with its predicted length on the wire. -/
structure MessageWithFrameLen where
  fd : Fd
  content : CStr
  frameLen : ℕ
  deriving DecidableEq, Repr

def messageCreateWithFrameLen (fd : Fd) (str : CStr) : MessageWithFrameLen :=
  let len := str.length
  let len :=
    if fd.toInt > 0 then
      (if sessionIsEncoded fd then
        len + (if len < 126 then 2 else if len < 65536 then 4 else 10)
      else len) + 1
    else len
  ⟨fd, str, len⟩

def messageError (fd : Fd) (reason : CStr) : MessageWithFrameLen :=
  messageCreateWithFrameLen fd
    (lit "ERROR\ncontent-type:text/plain\ncontent-length:" ++ decimal reason.length ++
      lit "\n\n" ++ reason ++ lit "\n")

def messageConnected (fd sessionId : Fd) : MessageWithFrameLen :=
  messageCreateWithFrameLen fd
    (lit "CONNECTED\nversion:1.2\nserver:kisp-stomp/0.0.1\ncontent-type:text/plain\nsession:" ++
      decimalInt sessionId.toInt ++ lit "\nheart-beat:0,0\n\n")

def messageReceipt (fd : Fd) (receiptId : CStr) : MessageWithFrameLen :=
  messageCreateWithFrameLen fd
    (lit "RECEIPT\ncontent-type:text/plain\nreceipt-id:" ++ receiptId ++ lit "\n")

def messageSendWithHeaders (fd : Fd) (headers : AaItem) (body : CStr) : MessageWithFrameLen :=
  messageCreateWithFrameLen fd
    (lit "MESSAGE\n" ++ aaCreateStrRepresentation headers ++ lit "\n\n" ++ body)

def messageDiagnostic (fd : Fd) (key value : CStr) : MessageWithFrameLen :=
  messageCreateWithFrameLen fd
    (lit "DIAG\ncontent-type:text/plain\n" ++ key ++ lit ":" ++ value ++ lit "\n")

/-- A frame is a MESSAGE exactly when its first line says so. -/
def MessageWithFrameLen.isMessage (m : MessageWithFrameLen) : Bool :=
  (lit "MESSAGE\n").isPrefixOf m.content

@[simp] theorem messageCreateWithFrameLen_fd (fd : Fd) (str : CStr) :
    (messageCreateWithFrameLen fd str).fd = fd := rfl

@[simp] theorem messageCreateWithFrameLen_content (fd : Fd) (str : CStr) :
    (messageCreateWithFrameLen fd str).content = str := rfl

@[simp] theorem messageError_fd (fd : Fd) (reason : CStr) : (messageError fd reason).fd = fd := rfl

@[simp] theorem messageConnected_fd (fd sessionId : Fd) :
    (messageConnected fd sessionId).fd = fd := rfl

@[simp] theorem messageReceipt_fd (fd : Fd) (receiptId : CStr) :
    (messageReceipt fd receiptId).fd = fd := rfl

@[simp] theorem messageSendWithHeaders_fd (fd : Fd) (headers : AaItem) (body : CStr) :
    (messageSendWithHeaders fd headers body).fd = fd := rfl

@[simp] theorem messageDiagnostic_fd (fd : Fd) (key value : CStr) :
    (messageDiagnostic fd key value).fd = fd := rfl

@[simp] theorem messageError_isMessage (fd : Fd) (reason : CStr) :
    (messageError fd reason).isMessage = false := rfl

@[simp] theorem messageConnected_isMessage (fd sessionId : Fd) :
    (messageConnected fd sessionId).isMessage = false := rfl

@[simp] theorem messageReceipt_isMessage (fd : Fd) (receiptId : CStr) :
    (messageReceipt fd receiptId).isMessage = false := rfl

@[simp] theorem messageDiagnostic_isMessage (fd : Fd) (key value : CStr) :
    (messageDiagnostic fd key value).isMessage = false := rfl

@[simp] theorem messageSendWithHeaders_isMessage (fd : Fd) (headers : AaItem) (body : CStr) :
    (messageSendWithHeaders fd headers body).isMessage = true := by
  simp [MessageWithFrameLen.isMessage, messageSendWithHeaders, List.append_assoc]

end StompBroker.Message
