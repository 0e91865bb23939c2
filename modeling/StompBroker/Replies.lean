import StompBroker.DistributeContract
import StompBroker.StompRun

/-! The answer to a frame. A frame is refused with an ERROR and nothing else happens, or it
is carried out and answered once: CONNECTED, DIAG, or the RECEIPT that was asked for. -/
namespace StompBroker.Replies
open CString SessionStorage StompSession Message StompParser PubSub Distribute Stomp StompRun
open DistributeContract TransitionSystem

def hasCommand (word : String) (frame : MessageWithFrameLen) : Bool :=
  (lit word ++ [nl]).isPrefixOf frame.content

abbrev isError (frame : MessageWithFrameLen) : Bool := hasCommand "ERROR" frame

@[simp] theorem isError_messageError (fd : Fd) (reason : CStr) : isError (messageError fd reason) = true := rfl
@[simp] theorem isError_messageConnected (fd sessionId : Fd) : isError (messageConnected fd sessionId) = false := rfl
@[simp] theorem isError_messageReceipt (fd : Fd) (receiptId : CStr) :
    isError (messageReceipt fd receiptId) = false := rfl
@[simp] theorem isError_messageDiagnostic (fd : Fd) (key value : CStr) :
    isError (messageDiagnostic fd key value) = false := rfl

theorem isError_of_isMessage {frame : MessageWithFrameLen} (h : frame.isMessage = true) :
    isError frame = false := by
  obtain ⟨rest, hr⟩ := List.isPrefixOf_iff_prefix.1 h
  rw [isError, hasCommand, ← hr]
  rfl

theorem distributeMessagesFromStaleQ_nil {env : Environment} {st : StompState} {topic id : CStr} {fd : Fd}
    {ttl : BitVec 32} (hs : st.stale = []) :
    distributeMessagesFromStaleQ env st topic fd id ttl = some st := by
  obtain ⟨topics, connected, stale, output, messageId, nextCounter⟩ := st
  obtain rfl : stale = [] := hs
  simp [distributeMessagesFromStaleQ, sweepStale]

theorem processCommand_stale {cfg : Config} {env : Environment} {st st' : StompState}
    {input : MessageWithTimestamp} {pm : ParsedMessage} {resp : Option MessageWithFrameLen} (hs : st.stale = [])
    (h : processCommand cfg env st input pm = some (st', resp)) : st'.stale = [] := by
  cases processCommand_outcome h with
  | refuse | connect | disconnect | unsubscribe | diagnostic => exact hs
  | subscribe hc hn hd =>
    rw [distributeMessagesFromStaleQ_nil (by exact hs), Option.some_inj] at hd
    exact hd ▸ hs
  | send hc hd =>
    obtain ⟨-, rfl | ⟨topic, frames, messageId, nextCounter, -, -, rfl⟩⟩ := distributeMessages_cases hd
    · exact hs
    · exact hs

theorem stompStep_stale {cfg : Config} {st st' : StompState} {c : Call} (hs : st.stale = [])
    (h : stompStep cfg st c = some st') : st'.stale = [] := by
  obtain ⟨-, rfl⟩ | ⟨pm, st₁, resp, -, -, hc, rfl⟩ := stompStep_cases h
  · exact hs
  · have hs₁ := processCommand_stale hs hc
    exact hs₁

theorem stale_nil {cfg : Config} {st : StompState} {calls : List Call}
    (h : Runs cfg stompStart calls st) : st.stale = [] :=
  h.invariant (I := fun st => st.stale = []) rfl fun _ _ _ hs hstep => stompStep_stale hs hstep

/-- What the switch may answer, and the frames it may send before. -/
def Answered (st st' : StompState) (input : MessageWithTimestamp) (pm : ParsedMessage)
    (resp : Option MessageWithFrameLen) : Prop :=
  (∃ reason, st' = st ∧ resp = some (messageError input.fd reason)) ∨
  match pm.command with
  | .connect => st'.output = st.output ∧ resp = some (messageConnected input.fd (sessionWithoutFlags input.fd))
  | .diagnostic => st'.output = st.output ∧ ∃ key value, resp = some (messageDiagnostic input.fd key value)
  | .unknown => False
  | _ => resp = none ∧ ∃ messages, st'.output = st.output ++ messages ∧ ∀ m ∈ messages, m.isMessage = true

theorem distributeMessages_total (cfg : Config) (st : StompState) {env : Environment}
    {input : MessageWithTimestamp} {pm : ParsedMessage} {topic : CStr}
    (hp : parseMessage env.past input = some pm) (ht : pm.topic = some topic) (hb : pm.messageBody ≠ none) :
    ∃ st' c, distributeMessages cfg env st input pm = some (st', c) := by
  by_cases he : expired env.now input.ts cfg.ttl = true
  · exact ⟨_, _, distributeMessages_expired he⟩
  by_cases hm : pubsubFindMatching st.topics topic = []
  · exact ⟨_, _, distributeMessages_no_match ht hm⟩
  obtain ⟨body, hbody⟩ := Option.ne_none_iff_exists'.1 hb
  obtain ⟨st', _, hd, -⟩ := @distributeMessages_relayed cfg env st _ _ _ _ hp ht hbody (by simpa using he) hm
  exact ⟨st', _, hd⟩

theorem distributeMessages_messages {cfg : Config} {env : Environment} {st st' : StompState}
    {input : MessageWithTimestamp} {pm : ParsedMessage} {c : Consumption}
    (h : distributeMessages cfg env st input pm = some (st', c)) :
    ∃ messages, st'.output = st.output ++ messages ∧ ∀ m ∈ messages, m.isMessage = true := by
  obtain ⟨-, rfl | ⟨topic, frames, messageId, nextCounter, -, hall, rfl⟩⟩ := distributeMessages_cases h
  · exact ⟨[], by simp⟩
  · refine ⟨frames, rfl, fun m hm => ?_⟩
    obtain ⟨-, -, hmsg, -⟩ := exists_recipient_of_mem hall hm
    exact hmsg

theorem processCommand_answered (cfg : Config) {env : Environment} {st : StompState}
    {input : MessageWithTimestamp} {pm : ParsedMessage} (hs : st.stale = [])
    (hp : parseMessage env.past input = some pm) (hb : pm.command = .send → pm.messageBody ≠ none) :
    ∃ st' resp, processCommand cfg env st input pm = some (st', resp) ∧ Answered st st' input pm resp := by
  have hswitch := processCommand_switch cfg env st input pm
  generalize processCommand cfg env st input pm = result at hswitch
  cases hswitch with
  | refuse reason hr => exact ⟨_, _, rfl, .inl ⟨_, rfl, rfl⟩⟩
  | connect hc hn => exact ⟨_, _, rfl, .inr (by simp [hc])⟩
  | disconnect hc hn => exact ⟨_, _, rfl, .inr (by simp [hc])⟩
  | subscribe hc hi ht hn =>
    rw [distributeMessagesFromStaleQ_nil (by exact hs)]
    exact ⟨_, _, rfl, .inr (by simp [hc])⟩
  | unsubscribe hc hi ht hn => exact ⟨_, _, rfl, .inr (by simp [hc])⟩
  | send hc ht hn hw =>
    obtain ⟨st', c, hd⟩ := distributeMessages_total cfg st hp ht (hb hc)
    refine ⟨st', none, by simp [hd], .inr ?_⟩
    simp only [hc, true_and]
    exact distributeMessages_messages hd
  | @diagnostic body hc hbody =>
    rcases createDiagnosticMessage_cases env st input body with he | ⟨value, hv⟩
    · exact ⟨_, _, rfl, .inl ⟨_, rfl, by rw [he]⟩⟩
    · exact ⟨_, _, rfl, .inr (by simp [hc, hv])⟩

theorem isError_of_relayed {messages : List MessageWithFrameLen} {receiptId : Option CStr} {fd : Fd}
    {frame : MessageWithFrameLen} (hm : ∀ m ∈ messages, m.isMessage = true)
    (hf : frame ∈ messages ++ (receiptId.map (messageReceipt fd)).toList) : isError frame = false := by
  rcases List.mem_append.1 hf with hf | hf
  · exact isError_of_isMessage (hm frame hf)
  · obtain ⟨id, -, rfl⟩ := Option.map_eq_some_iff.1 (Option.mem_toList.1 hf)
    rfl

def connectCalls : List Call :=
  [⟨quietEnvironment 0, ⟨9, lit "CONNECT\n\n", 0⟩⟩,
    ⟨quietEnvironment 0, ⟨9, lit "SUBSCRIBE\nid:s\ndestination:/topic/*\n\n", 0⟩⟩]

/-- It sends a message to itself and asks for a receipt. -/
def receiptSend : MessageWithTimestamp := ⟨9, lit "SEND\ndestination:/topic/1\nreceipt:r\n\nhello", 1000⟩

end StompBroker.Replies
