import StompBroker.AcceptEpoll
import StompBroker.StompRun

/-! The reader thread: the websocket handshake filter in front of the STOMP processor. -/
namespace StompBroker.ReaderThread
open CString SessionStorage Message Distribute Stomp StompRun

def isHttpRequest (buffer : CStr) : Bool :=
  match strchr buffer nl, strstr buffer (lit "GET /") with
  | some firstLn, some found => found < firstLn
  | _, _ => false

def websocketKeyHeader : CStr := lit "Sec-WebSocket-Key: "

/-- The key ends behind the first "==" of the whole request; one before the key does not shorten
it. -/
def parseSecWebsocketKey (buffer : CStr) : Option CStr :=
  (strstr buffer websocketKeyHeader).map fun found =>
    let key := found + websocketKeyHeader.length
    match strstr buffer (lit "==") with
    | some eok => if key ≤ eok + 2 then (buffer.drop key).take (eok + 2 - key) else buffer.drop key
    | none => buffer.drop key

def sendAcceptResponse (acceptKey : CStr) (fd : Fd) : MessageWithFrameLen :=
  messageCreateWithFrameLen fd
    (lit "HTTP/1.1 101 Switching Protocols\r\nUpgrade: websocket\r\nConnection: Upgrade\r\n" ++
      lit "Sec-WebSocket-Version: 13\r\nSec-WebSocket-Accept: " ++ acceptKey ++ lit "\r\n\r\n")

/-- The frames put on the output queue for a handshake, `none` when the message is none.
`createAcceptKey` stands for the digest of the key. -/
def wsInputFilterHandshake (createAcceptKey : CStr → CStr) (m : MessageWithTimestamp) :
    Option (List MessageWithFrameLen) :=
  if isHttpRequest m.content then
    match parseSecWebsocketKey m.content with
    | some clientKey => some [sendAcceptResponse (createAcceptKey clientKey) m.fd]
    | none => some []
  else none

/-- One round of the reader's loop. `none` when the thread ends, at a poison pill or by a
fault. -/
def readerThread (createAcceptKey : CStr → CStr) (cfg : Config) (st : StompState) (c : Call) :
    Option StompState :=
  if c.input.fd = poisonFd then none
  else match wsInputFilterHandshake createAcceptKey c.input with
    | some frames => some { st with output := st.output ++ frames }
    | none => stompStep cfg st c

theorem sendAcceptResponse_isMessage (acceptKey : CStr) (fd : Fd) :
    (sendAcceptResponse acceptKey fd).isMessage = false := by
  simp [MessageWithFrameLen.isMessage, sendAcceptResponse, lit, List.isPrefixOf]

theorem wsInputFilterHandshake_reply {createAcceptKey : CStr → CStr} {m : MessageWithTimestamp}
    {frames : List MessageWithFrameLen} (h : wsInputFilterHandshake createAcceptKey m = some frames) :
    ∀ frame ∈ frames, frame.isMessage = false ∧ frame.fd = m.fd := by
  unfold wsInputFilterHandshake at h
  split_ifs at h
  split at h
  · cases h
    intro frame hf
    rw [List.mem_singleton.mp hf]
    exact ⟨sendAcceptResponse_isMessage _ _, rfl⟩
  · cases h
    simp

/-- What a round does to subscriptions and bits, and where its frames come from. -/
theorem readerThread_spec {createAcceptKey : CStr → CStr} {cfg : Config} {st st' : StompState}
    {c : Call} (h : readerThread createAcceptKey cfg st c = some st') :
    SessionChange st c.input st'.topics st'.connected ∧
    ∃ frames, st'.output = st.output ++ frames ∧ ∀ frame ∈ frames, FrameOrigin st c.input frame := by
  unfold readerThread at h
  split_ifs at h
  split at h
  · rename_i frames hf
    cases h
    refine ⟨.keep, frames, rfl, fun frame hm => ?_⟩
    obtain ⟨hmsg, hfd⟩ := wsInputFilterHandshake_reply hf frame hm
    exact .reply hmsg hfd
  · exact stompStep_spec h

/-- The purge message of either teardown path reaches the processor. -/
theorem readerThread_purge (createAcceptKey : CStr → CStr) (cfg : Config) (st : StompState)
    {c : Call} (hc : c.input.content = lit "CMD") (hp : isPurge c.input.fd = true)
    (hne : c.input.fd ≠ poisonFd) :
    readerThread createAcceptKey cfg st c = some { st with
      topics := PubSub.pubsubRemoveClient st.topics (sessionWoCmdPurge c.input.fd)
      connected := StompSession.stompSessionSetConnected st.connected
        (sessionWithoutFlags c.input.fd) 0 } := by
  have hf : wsInputFilterHandshake createAcceptKey c.input = none := by
    rw [wsInputFilterHandshake, hc]
    rfl
  simp [readerThread, hne, hf, stompStep, stompProcess_purge hp]

end StompBroker.ReaderThread
