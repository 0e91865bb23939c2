import StompBroker.MessageIds
import StompBroker.ReaderThread
import StompBroker.SetupByArgs
import StompBroker.Template

/-! The functions that build a frame write it into a temporary buffer. Its size is computed from the template and the
arguments, and nothing checks it again. -/
namespace StompBroker.FrameAllocation
open CString SessionStorage Message AssociativeArray StompParser PubSub Distribute Stomp StompRun
  ReaderThread Template TransitionSystem

def percent : UInt8 := 37

def errorTemplate : CStr := lit "ERROR\ncontent-type:text/plain\ncontent-length:%d\n\n%s\n"

def connectedTemplate : CStr :=
  lit "CONNECTED\nversion:1.2\nserver:kisp-stomp/0.0.1\ncontent-type:text/plain\nsession:%d\nheart-beat:0,0\n\n"

def receiptTemplate : CStr := lit "RECEIPT\ncontent-type:text/plain\nreceipt-id:%s\n"

def messageTemplateWithHeaders : CStr := lit "MESSAGE\n%s\n\n%s"

def messageDiagnosticTemplate : CStr := lit "DIAG\ncontent-type:text/plain\n%s:%s\n"

def acceptTemplate : CStr :=
  lit "HTTP/1.1 101 Switching Protocols\r\nUpgrade: websocket\r\nConnection: Upgrade\r\n" ++
    lit "Sec-WebSocket-Version: 13\r\nSec-WebSocket-Accept: %s\r\n\r\n"

/-- The loop of `len_of_int`; a counter that is not positive does not enter it. -/
def countDigits (counter : ℕ) : ℕ := if 0 < counter then countDigits (counter / 10) + 1 else 0

def lenOfInt (len : BitVec 32) : ℕ := if len = 0#32 then 1 else countDigits len.toInt.toNat

/-- A size that the source computes as an `int`. -/
def asInt (size : ℕ) : ℤ := (BitVec.ofNat 32 size).toInt

/-- A call of one of the functions that build a frame. -/
inductive Builder
  | error (reason : CStr)
  | connected (sessionId : Fd)
  | receipt (receiptId : CStr)
  | sendWithHeaders (headers : AaItem) (body : CStr)
  | diagnostic (key value : CStr)
  | accept (acceptKey : CStr)

def Builder.frame (fd : Fd) : Builder → MessageWithFrameLen
  | .error reason => messageError fd reason
  | .connected sessionId => messageConnected fd sessionId
  | .receipt receiptId => messageReceipt fd receiptId
  | .sendWithHeaders headers body => messageSendWithHeaders fd headers body
  | .diagnostic key value => messageDiagnostic fd key value
  | .accept acceptKey => sendAcceptResponse acceptKey fd

def Builder.template : Builder → CStr
  | .error _ => errorTemplate
  | .connected _ => connectedTemplate
  | .receipt _ => receiptTemplate
  | .sendWithHeaders _ _ => messageTemplateWithHeaders
  | .diagnostic _ _ => messageDiagnosticTemplate
  | .accept _ => acceptTemplate

/-- The converted arguments of `sprintf`. -/
def Builder.args : Builder → List CStr
  | .error reason => [decimal reason.length, reason]
  | .connected sessionId => [decimalInt sessionId.toInt]
  | .receipt receiptId => [receiptId]
  | .sendWithHeaders headers body => [aaCreateStrRepresentation headers, body]
  | .diagnostic key value => [key, value]
  | .accept acceptKey => [acceptKey]

/-- What `sprintf` writes, without the NUL behind it. -/
def Builder.text (call : Builder) : CStr := fill percent call.template call.args

/-- The size that the builder asks `emalloc` for. -/
def Builder.allocated : Builder → ℤ
  | .error reason => reason.length + errorTemplate.length + 10
  | .connected sessionId => asInt (connectedTemplate.length - 2 + lenOfInt sessionId + 1)
  | .receipt receiptId => asInt (receiptTemplate.length - 2 + receiptId.length + 1)
  | .sendWithHeaders headers body =>
      asInt (messageTemplateWithHeaders.length - 4 + (aaCreateStrRepresentation headers).length + body.length + 1)
  | .diagnostic key value => asInt (messageDiagnosticTemplate.length - 4 + key.length + value.length + 1)
  | .accept acceptKey => (acceptTemplate.length - 2 + acceptKey.length + 1 : ℕ)

def Builder.Fits (call : Builder) : Prop := (call.text.length : ℤ) + 1 ≤ call.allocated

/-- `len_of_int` counts no digit of a negative number. -/
def Builder.Countable (call : Builder) : Prop := ∀ sessionId, call = .connected sessionId → 0 ≤ sessionId.toInt

theorem countDigits_le_iff (k n : ℕ) : countDigits n ≤ k ↔ n < 10 ^ k := by
  induction k generalizing n with
  | zero =>
    rw [countDigits, pow_zero]
    split_ifs with hn <;> omega
  | succ k ih =>
    rw [countDigits, pow_succ]
    split_ifs with hn
    · rw [Nat.succ_le_succ_iff, ih, Nat.div_lt_iff_lt_mul (by decide)]
    · have : 0 < 10 ^ k := Nat.pow_pos (by decide)
      omega

theorem length_decimal_le_iff {k : ℕ} (hk : 0 < k) (n : ℕ) : (decimal n).length ≤ k ↔ n < 10 ^ k := by
  rw [decimal, List.length_map]
  exact Nat.length_toDigits_le_iff (by decide) hk

/-- The count is the length of the text, for a number that is not negative. -/
theorem lenOfInt_eq {z : BitVec 32} (hz : 0 ≤ z.toInt) : lenOfInt z = (decimalInt z.toInt).length := by
  have htext : decimalInt z.toInt = decimal z.toInt.toNat := by
    rw [decimalInt, if_neg (by omega)]
    congr 1
    omega
  rw [htext, lenOfInt]
  split_ifs with hzero
  · subst hzero
    rfl
  · have hpos : 0 < z.toInt.toNat := by
      have hne : z.toInt ≠ 0 := fun h => hzero (BitVec.eq_of_toInt_eq (by simpa using h))
      omega
    have hsame : ∀ k, countDigits z.toInt.toNat ≤ k ↔ (decimal z.toInt.toNat).length ≤ k := by
      intro k
      rcases k.eq_zero_or_pos with rfl | hk
      · rw [countDigits_le_iff]
        have := List.length_pos_of_ne_nil (decimal_ne_nil z.toInt.toNat)
        omega
      · rw [countDigits_le_iff, length_decimal_le_iff hk]
    exact le_antisymm ((hsame _).2 le_rfl) ((hsame _).1 le_rfl)

theorem lenOfInt_neg {z : BitVec 32} (hz : z.toInt < 0) : lenOfInt z = 0 := by
  have hne : z ≠ 0#32 := fun h => by simp [h] at hz
  have hzero : z.toInt.toNat = 0 := by omega
  rw [lenOfInt, if_neg hne, hzero, countDigits]
  rfl

theorem asInt_eq {size : ℕ} (h : size < 2 ^ 31) : asInt size = size := by
  rw [asInt, BitVec.toInt_eq_toNat_of_lt (by rw [BitVec.toNat_ofNat]; omega), BitVec.toNat_ofNat, Nat.mod_eq_of_lt (by omega)]

theorem args_length (call : Builder) : call.args.length = conversions percent call.template := by
  cases call with
  | accept acceptKey =>
    have hone : conversions percent acceptTemplate = 1 := by decide +kernel
    exact hone.symm
  | error | connected | receipt | sendWithHeaders | diagnostic => rfl

theorem length_text (call : Builder) :
    call.text.length + 2 * call.args.length = call.template.length + (call.args.map List.length).sum :=
  length_fill call.template call.args (args_length call)

theorem text_eq (call : Builder) (fd : Fd) : call.text = (call.frame fd).content := by
  cases call with
  | error reason =>
    have hsplit : errorTemplate = lit "ERROR\ncontent-type:text/plain\ncontent-length:" ++
        percent :: 100 :: (lit "\n\n" ++ percent :: 115 :: lit "\n") := by
      decide
    rw [Builder.text, Builder.template, hsplit, Builder.args, fill_two (by decide) (by decide) (by decide)]
    simp [Builder.frame, messageError]
  | connected sessionId =>
    have hsplit : connectedTemplate = lit "CONNECTED\nversion:1.2\nserver:kisp-stomp/0.0.1\ncontent-type:text/plain\nsession:" ++
        percent :: 100 :: lit "\nheart-beat:0,0\n\n" := by
      decide
    rw [Builder.text, Builder.template, hsplit, Builder.args, fill_one (by decide) (by decide)]
    simp [Builder.frame, messageConnected]
  | receipt receiptId =>
    have hsplit : receiptTemplate = lit "RECEIPT\ncontent-type:text/plain\nreceipt-id:" ++ percent :: 115 :: lit "\n" := by decide
    rw [Builder.text, Builder.template, hsplit, Builder.args, fill_one (by decide) (by decide)]
    simp [Builder.frame, messageReceipt]
  | sendWithHeaders headers body =>
    have hsplit : messageTemplateWithHeaders = lit "MESSAGE\n" ++
        percent :: 115 :: (lit "\n\n" ++ percent :: 115 :: []) := by decide
    rw [Builder.text, Builder.template, hsplit, Builder.args, fill_two (by decide) (by decide) (by decide)]
    simp [Builder.frame, messageSendWithHeaders]
  | diagnostic key value =>
    have hsplit : messageDiagnosticTemplate = lit "DIAG\ncontent-type:text/plain\n" ++
        percent :: 115 :: (lit ":" ++ percent :: 115 :: lit "\n") := by
      decide
    rw [Builder.text, Builder.template, hsplit, Builder.args, fill_two (by decide) (by decide) (by decide)]
    simp [Builder.frame, messageDiagnostic]
  | accept acceptKey =>
    have hsplit : acceptTemplate =
        lit "HTTP/1.1 101 Switching Protocols\r\nUpgrade: websocket\r\nConnection: Upgrade\r\n" ++
          lit "Sec-WebSocket-Version: 13\r\nSec-WebSocket-Accept: " ++ percent :: 115 :: lit "\r\n\r\n" := by
      decide +kernel
    rw [Builder.text, Builder.template, hsplit, Builder.args, fill_one (by decide +kernel) (by decide)]
    simp [Builder.frame, sendAcceptResponse]

theorem length_text_one {call : Builder} {arg : CStr} (h : call.args = [arg]) :
    2 ≤ call.template.length ∧ call.text.length = call.template.length - 2 + arg.length := by
  have hlen := length_text call
  have hroom := two_mul_conversions_le percent call.template
  rw [← args_length] at hroom
  simp only [h, List.map_cons, List.map_nil, List.sum_cons, List.sum_nil, List.length_cons, List.length_nil] at hlen hroom
  omega

theorem length_text_two {call : Builder} {arg arg' : CStr} (h : call.args = [arg, arg']) :
    4 ≤ call.template.length ∧ call.text.length = call.template.length - 4 + arg.length + arg'.length := by
  have hlen := length_text call
  have hroom := two_mul_conversions_le percent call.template
  rw [← args_length] at hroom
  simp only [h, List.map_cons, List.map_nil, List.sum_cons, List.sum_nil, List.length_cons, List.length_nil] at hlen hroom
  omega

/-- A buffer is large enough unless its size leaves out the digits of a negative session. -/
theorem fits_iff {call : Builder} (hsize : call.text.length + 1 < 2 ^ 31) : call.Fits ↔ call.Countable := by
  unfold Builder.Fits
  cases call with
  | error reason =>
    obtain ⟨hroom, hlen⟩ := @length_text_two (.error reason) _ _ rfl
    rw [Builder.template] at hlen hroom
    have hdigits : (decimal reason.length).length ≤ 10 := (length_decimal_le_iff (by decide) _).2 (by omega)
    refine ⟨fun _ _ h => (nomatch h), fun _ => ?_⟩
    rw [Builder.allocated]
    omega
  | connected sessionId =>
    obtain ⟨-, hlen⟩ := @length_text_one (.connected sessionId) _ rfl
    have htemplate : connectedTemplate.length = 97 := by decide
    rw [Builder.template] at hlen
    have hall : Builder.Countable (.connected sessionId) ↔ 0 ≤ sessionId.toInt :=
      ⟨fun h => h sessionId rfl, fun h _ heq => by cases heq; exact h⟩
    rw [hall, Builder.allocated]
    rcases lt_or_ge sessionId.toInt 0 with hneg | hpos
    · have htext := List.length_pos_of_ne_nil (SetupByArgs.decimalInt_ne_nil sessionId.toInt)
      rw [lenOfInt_neg hneg, asInt_eq (by omega)]
      omega
    · rw [lenOfInt_eq hpos, asInt_eq (by omega)]
      omega
  | receipt receiptId =>
    obtain ⟨-, hlen⟩ := @length_text_one (.receipt receiptId) _ rfl
    rw [Builder.template] at hlen
    refine ⟨fun _ _ h => (nomatch h), fun _ => ?_⟩
    rw [Builder.allocated, asInt_eq (by omega)]
    omega
  | sendWithHeaders headers body =>
    obtain ⟨-, hlen⟩ := @length_text_two (.sendWithHeaders headers body) _ _ rfl
    rw [Builder.template] at hlen
    refine ⟨fun _ _ h => (nomatch h), fun _ => ?_⟩
    rw [Builder.allocated, asInt_eq (by omega)]
    omega
  | diagnostic key value =>
    obtain ⟨-, hlen⟩ := @length_text_two (.diagnostic key value) _ _ rfl
    rw [Builder.template] at hlen
    refine ⟨fun _ _ h => (nomatch h), fun _ => ?_⟩
    rw [Builder.allocated, asInt_eq (by omega)]
    omega
  | accept acceptKey =>
    obtain ⟨-, hlen⟩ := @length_text_one (.accept acceptKey) _ rfl
    rw [Builder.template] at hlen
    refine ⟨fun _ _ h => (nomatch h), fun _ => ?_⟩
    rw [Builder.allocated]
    omega

/-- The frame was built in a buffer with room for it. -/
def Built (frame : MessageWithFrameLen) : Prop := ∃ call : Builder, frame = call.frame frame.fd ∧ call.Countable

variable {createAcceptKey : CStr → CStr} {cfg : Config} {env : Environment} {st st' : StompState} {input : MessageWithTimestamp}
  {pm : ParsedMessage} {c : Call}

theorem built_error (fd : Fd) (reason : CStr) : Built (messageError fd reason) :=
  ⟨.error reason, rfl, fun _ h => (nomatch h)⟩

theorem built_diagnostic (fd : Fd) (key value : CStr) : Built (messageDiagnostic fd key value) :=
  ⟨.diagnostic key value, rfl, fun _ h => (nomatch h)⟩

theorem built_receipt (fd : Fd) (receiptId : CStr) : Built (messageReceipt fd receiptId) :=
  ⟨.receipt receiptId, rfl, fun _ h => (nomatch h)⟩

theorem built_sendWithHeaders (fd : Fd) (headers : AaItem) (body : CStr) : Built (messageSendWithHeaders fd headers body) :=
  ⟨.sendWithHeaders headers body, rfl, fun _ h => (nomatch h)⟩

theorem built_accept (acceptKey : CStr) (fd : Fd) : Built (sendAcceptResponse acceptKey fd) :=
  ⟨.accept acceptKey, rfl, fun _ h => (nomatch h)⟩

theorem built_connected (fd id : Fd) : Built (messageConnected fd (sessionWithoutFlags id)) := by
  refine ⟨.connected (sessionWithoutFlags id), rfl, fun _ h => ?_⟩
  cases h
  have hsmall := toNat_sessionWithoutFlags id
  rw [BitVec.toInt_eq_toNat_of_lt (by omega)]
  exact Int.natCast_nonneg _

theorem built_foldl_deliver (topic body : CStr) (subs : List Subscription) {d : Delivery}
    (hd : ∀ frame ∈ d.messagesOut, Built frame) :
    ∀ frame ∈ (subs.foldl (fun d sub => deliver topic body d sub.sessionId sub.id) d).messagesOut, Built frame := by
  induction subs generalizing d with
  | nil => exact hd
  | cons sub subs ih =>
    refine ih fun frame hf => ?_
    rcases List.mem_append.1 hf with hf | hf
    · exact hd frame hf
    · rw [List.mem_singleton.1 hf]
      exact built_sendWithHeaders _ _ _

theorem built_swept {now : ℤ} {ttl messageId messageId' : BitVec 32} {topic id : CStr} {fd : Fd} {stale kept : List ParsedMessage}
    {out : List MessageWithFrameLen} (h : Swept now ttl topic fd id stale messageId kept messageId' out) :
    ∀ frame ∈ out, Built frame := by
  induction h with
  | nil => exact List.forall_mem_nil _
  | dropped _ _ ih => exact ih
  | stays _ _ _ _ ih => exact ih
  | delivered _ _ _ _ _ ih => exact List.forall_mem_cons.2 ⟨built_sendWithHeaders _ _ _, ih⟩

theorem built_distributed {consumption : Consumption} (h : distributeMessages cfg env st input pm = some (st', consumption)) :
    ∃ frames, st'.output = st.output ++ frames ∧ ∀ frame ∈ frames, Built frame := by
  by_cases he : expired env.now input.ts cfg.ttl = true
  · rw [distributeMessages_expired he] at h
    cases h
    exact ⟨[], (List.append_nil _).symm, List.forall_mem_nil _⟩
  · cases ht : pm.topic with
    | none => simp [distributeMessages, he, ht] at h
    | some topic =>
      by_cases hm : pubsubFindMatching st.topics topic = []
      · rw [distributeMessages_no_match ht hm] at h
        cases h
        exact ⟨[], (List.append_nil _).symm, List.forall_mem_nil _⟩
      · rw [distributeMessages_match (by simpa using he) ht hm] at h
        obtain ⟨body, -, h⟩ := Option.bind_eq_some_iff.1 h
        obtain ⟨headers, -, h⟩ := Option.map_eq_some_iff.1 h
        cases h
        exact ⟨_, rfl, built_foldl_deliver topic body _ (List.forall_mem_nil _)⟩

theorem built_command {resp : Option MessageWithFrameLen} (h : processCommand cfg env st input pm = some (st', resp)) :
    (∃ frames, st'.output = st.output ++ frames ∧ ∀ frame ∈ frames, Built frame) ∧ ∀ frame ∈ resp, Built frame := by
  have hkeep : ∃ frames, st.output = st.output ++ frames ∧ ∀ frame ∈ frames, Built frame :=
    ⟨[], (List.append_nil _).symm, List.forall_mem_nil _⟩
  cases processCommand_outcome h with
  | refuse reason => exact ⟨hkeep, fun frame hf => Option.mem_some_iff.1 hf ▸ built_error _ _⟩
  | connect => exact ⟨hkeep, fun frame hf => Option.mem_some_iff.1 hf ▸ built_connected _ _⟩
  | disconnect | unsubscribe => exact ⟨hkeep, nofun⟩
  | subscribe hc hn hd =>
    obtain ⟨⟨stale, mid, out⟩, hs, hd⟩ := Option.bind_eq_some_iff.1 hd
    cases hd
    exact ⟨⟨out, rfl, built_swept (swept_of_sweepStale hs)⟩, nofun⟩
  | send hc hd => exact ⟨built_distributed hd, nofun⟩
  | diagnostic body =>
    refine ⟨hkeep, fun frame hf => Option.mem_some_iff.1 hf ▸ ?_⟩
    rcases createDiagnosticMessage_cases env st input body with hreply | ⟨value, hreply⟩
    · rw [hreply]
      exact built_error _ _
    · rw [hreply]
      exact built_diagnostic _ _ _

theorem built_closing {resp : Option MessageWithFrameLen} (h : ∀ frame ∈ resp, Built frame) :
    ∀ frame ∈ closingFrame input pm resp, Built frame := by
  intro frame hf
  rw [closingFrame, Option.mem_toList] at hf
  cases resp with
  | some reply => exact h frame hf
  | none =>
    obtain ⟨receiptId, -, rfl⟩ := Option.map_eq_some_iff.1 hf
    exact built_receipt _ _

theorem built_round (hs : readerThread createAcceptKey cfg st c = some st') (h : ∀ frame ∈ st.output, Built frame) :
    ∀ frame ∈ st'.output, Built frame := by
  unfold readerThread at hs
  split_ifs at hs
  split at hs
  · rename_i frames hframes
    cases hs
    refine List.forall_mem_append.2 ⟨h, fun frame hf => ?_⟩
    unfold wsInputFilterHandshake at hframes
    split_ifs at hframes
    split at hframes
    · cases hframes
      rw [List.mem_singleton.1 hf]
      exact built_accept _ _
    · cases hframes
      cases hf
  · rcases stompStep_cases hs with ⟨-, rfl⟩ | ⟨pm, st₁, resp, -, -, hc, rfl⟩
    · exact h
    · obtain ⟨⟨frames, hout, hframes⟩, hresp⟩ := built_command hc
      refine List.forall_mem_append.2 ⟨?_, built_closing hresp⟩
      rw [hout]
      exact List.forall_mem_append.2 ⟨h, hframes⟩

/-- Every frame of a run was written into a buffer with room for its text and the NUL. -/
theorem frames_fit {calls : List Call} (h : Run (Steps (readerThread createAcceptKey cfg)) stompStart calls st)
    {frame : MessageWithFrameLen} (hf : frame ∈ st.output) (hsize : frame.content.length + 1 < 2 ^ 31) :
    ∃ call : Builder, frame = call.frame frame.fd ∧ call.text = frame.content ∧ call.Fits := by
  have hall : ∀ frame ∈ st.output, Built frame :=
    h.invariant (I := fun st => ∀ frame ∈ st.output, Built frame) (List.forall_mem_nil _) fun _ _ _ hi hs => built_round hs hi
  obtain ⟨call, hframe, hcount⟩ := hall frame hf
  have htext : call.text = frame.content := (text_eq call frame.fd).trans (congrArg MessageWithFrameLen.content hframe.symm)
  exact ⟨call, hframe, htext, (fits_iff (by rw [htext]; exact hsize)).2 hcount⟩

theorem frames_fit_ownId :
    ∃ st, Run (Steps (readerThread id DistributeContract.lateConfig)) stompStart (MessageIds.ownIdCalls.take 1) st ∧
    ∃ frame ∈ st.output, ∃ call : Builder, frame = call.frame frame.fd ∧ call.text = frame.content ∧ call.Fits := by
  obtain ⟨st, hrun, hone⟩ :
      ∃ st, Run (Steps (readerThread id DistributeContract.lateConfig)) stompStart (MessageIds.ownIdCalls.take 1) st ∧
      ∃ frame ∈ st.output, frame.content.length + 1 < 2 ^ 31 :=
    exists_run_of_exec (P := fun st : StompState => ∃ frame ∈ st.output, frame.content.length + 1 < 2 ^ 31) (by decide)
  obtain ⟨frame, hf, hsize⟩ := hone
  exact ⟨st, hrun, frame, hf, frames_fit hrun hf hsize⟩

end StompBroker.FrameAllocation
