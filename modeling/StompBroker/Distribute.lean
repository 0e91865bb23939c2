import StompBroker.StompParser
import StompBroker.PubSub
import StompBroker.StompSession

/-! Distribution of messages to subscribers, and the diagnostic answers that travel in
their headers. The state is what the STOMP layer owns: the subscription list, the
connected bitmap, the stale queue, the tail end of the output queue and two counters. -/
namespace StompBroker.Distribute
open CString AssociativeArray SessionStorage StompSession Message StompParser PubSub

structure StompState where
  topics : Topics
  connected : SessionConnected
  stale : List ParsedMessage
  output : List MessageWithFrameLen
  messageId : BitVec 32
  nextCounter : BitVec 32

/-- What a call reads from outside the STOMP layer: the processor clock, the memory behind
the message text, and the statistics shown by diagnostic messages. -/
structure Environment where
  now : ℤ
  past : List UInt8
  inputQueueSize : ℕ
  sessionSize : ℤ
  sessionEncodedSize : ℤ
  wsAllocated : ℕ
  wsHits : ℕ
  wsMisses : ℕ
  deriving DecidableEq, Repr

structure Config where
  ttl : BitVec 32
  maxStaleQueueSize : BitVec 32
  deriving DecidableEq, Repr

def quietEnvironment (now : ℤ) : Environment := ⟨now, [], 0, 1, 0, 0, 0, 0⟩

inductive Consumption
  | consumed | notConsumed
  deriving DecidableEq, Repr

/-- `snprintf("%d")` of an unsigned counter passed as an int. -/
def itoa (num : BitVec 32) : CStr := decimalInt num.toInt

def createDiagnosticMessage (env : Environment) (st : StompState) (input : MessageWithTimestamp)
    (body : CStr) : MessageWithFrameLen :=
  if strncmpEq body (lit "session-size") 12 then
    messageDiagnostic input.fd body (decimalInt env.sessionSize)
  else if strncmpEq body (lit "session-encoded-size") 20 then
    messageDiagnostic input.fd body (decimalInt env.sessionEncodedSize)
  else if strncmpEq body (lit "session-connected-size") 22 then
    messageDiagnostic input.fd body (decimal (stompSessionConnectedSize st.connected))
  else if strncmpEq body (lit "pubsub-size") 11 then
    messageDiagnostic input.fd body (decimal (pubsubSize st.topics))
  else if strncmpEq body (lit "session") 7 then
    messageDiagnostic input.fd body
      (lit "\x7b\"clients\":" ++ decimalInt env.sessionSize ++
        lit ",\"websockets\": " ++ decimalInt env.sessionEncodedSize ++
        lit ",\"stomp_connected\":" ++ decimal (stompSessionConnectedSize st.connected) ++
        lit ",\"subscriptions\":" ++ decimal (pubsubSize st.topics) ++ lit "\x7d")
  else if strncmpEq body (lit "subs") 4 then
    messageDiagnostic input.fd body (pubsubToStr 4000 [] st.topics)
  else if strncmpEq body (lit "ws_buffer") 9 then
    messageDiagnostic input.fd body
      (lit "\x7b\"allocated\":" ++ decimal env.wsAllocated ++ lit ",\"hits\":" ++
        decimal env.wsHits ++ lit ",\"misses\":" ++ decimal env.wsMisses ++ lit "\x7d")
  else if strncmpEq body (lit "stale") 5 then
    messageDiagnostic input.fd body
      (lit "\x7b\"in\":" ++ decimal env.inputQueueSize ++ lit ",\"out\":" ++
        decimal st.output.length ++ lit "\x7d")
  else messageError input.fd (lit "Invalid message!")

def createDiagnosticHeaders (env : Environment) (st : StompState) (headers : AaItem)
    (body : CStr) : AaItem :=
  if strncmpEq body (lit "session-size") 12 then
    aaPut headers (lit "session-size") (decimalInt env.sessionSize)
  else if strncmpEq body (lit "session-encoded-size") 20 then
    aaPut headers (lit "session-encoded-size") (decimalInt env.sessionEncodedSize)
  else if strncmpEq body (lit "session-connected-size") 22 then
    aaPut headers (lit "session-connected-size") (decimal (stompSessionConnectedSize st.connected))
  else if strncmpEq body (lit "pubsub-size") 11 then
    aaPut headers (lit "pubsub-size") (decimal (pubsubSize st.topics))
  else if strncmpEq body (lit "session") 7 then
    let headers := aaPut headers (lit "clients") (decimalInt env.sessionSize)
    let headers := aaPut headers (lit "websockets") (decimalInt env.sessionEncodedSize)
    let headers := aaPut headers (lit "stomp_connected")
      (decimal (stompSessionConnectedSize st.connected))
    aaPut headers (lit "subscriptions") (decimal (pubsubSize st.topics))
  else if strncmpEq body (lit "ws_buffer") 9 then
    let headers := aaPut headers (lit "allocated") (decimal env.wsAllocated)
    let headers := aaPut headers (lit "hits") (decimal env.wsHits)
    aaPut headers (lit "misses") (decimal env.wsMisses)
  else if strncmpEq body (lit "stale") 5 then
    let headers := aaPut headers (lit "input-queue-size") (decimal env.inputQueueSize)
    let headers := aaPut headers (lit "output-queue-size") (decimal st.output.length)
    aaPut headers (lit "stale-queue-size") (decimal st.stale.length)
  else headers

def expired (now ts : ℤ) (ttl : BitVec 32) : Bool := ts ≠ 0 ∧ ttl ≠ 0 ∧ now - ts > ttl.toNat

/-- One subscription of a worker queue, chosen by the global counter. -/
def pickNext (subscriptions : List Subscription) (nextCounter : BitVec 32) :
    List Subscription × BitVec 32 :=
  ((subscriptions[nextCounter.toNat % subscriptions.length]?).toList, nextCounter + 1)

/-- The header map shared by all deliveries of one message, the id counter and the frames. -/
structure Delivery where
  headers : AaItem
  messageId : BitVec 32
  messagesOut : List MessageWithFrameLen

def addNextMessageId (d : Delivery) : Delivery :=
  { d with
    headers := aaPut d.headers (lit "message-id") (itoa d.messageId)
    messageId := d.messageId + 1 }

def deliver (topic body : CStr) (d : Delivery) (sessionId : Fd) (subscriptionId : CStr) : Delivery :=
  let d := addNextMessageId d
  let headers := aaPut (aaPut d.headers (lit "destination") topic) (lit "subscription") subscriptionId
  { d with
    headers := headers
    messagesOut := d.messagesOut ++ [messageSendWithHeaders sessionId headers body] }

def messageHeaders (pm : ParsedMessage) (body : CStr) : Option AaItem :=
  (aaMerge .nil pm.headers).map fun headers =>
    aaPut (aaPut headers (lit "content-type") (lit "text/plain"))
      (lit "content-length") (decimal body.length)

def enqueueLimited {α : Type} (q : List α) (new : α) (limit : BitVec 32) : List α × ℤ :=
  if q.length < limit.toNat then (q ++ [new], 0) else (q, -1)

/-- `none` when a missing body or an empty header map is used. -/
def distributeMessages (cfg : Config) (env : Environment) (st : StompState)
    (input : MessageWithTimestamp) (pm : ParsedMessage) : Option (StompState × Consumption) := do
  if expired env.now input.ts cfg.ttl then return (st, .consumed)
  let topic ← pm.topic
  let matching := pubsubFindMatching st.topics topic
  if matching.length > 0 then
    let (matching, nextCounter) :=
      if topic.head? = some 35 ∧ matching.length > 0 then pickNext matching st.nextCounter
      else (matching, st.nextCounter)
    let body ← pm.messageBody
    let headers ← messageHeaders pm body
    let headers :=
      if strncmpEq topic (lit "DIAG") 4 then createDiagnosticHeaders env st headers body else headers
    let d := matching.foldl (fun d sub => deliver topic body d sub.sessionId sub.id)
      ⟨headers, st.messageId, []⟩
    let st := { st with messageId := d.messageId, nextCounter := nextCounter }
    if d.messagesOut.length > 0 then
      return ({ st with output := st.output ++ d.messagesOut }, .consumed)
    else if cfg.ttl.toNat > 0 then
      let (stale, ret) := enqueueLimited st.stale pm cfg.maxStaleQueueSize
      return ({ st with stale := stale }, if ret ≥ 0 then .notConsumed else .consumed)
    else return (st, .consumed)
  else return (st, .consumed)

def staleMatches (topic messageTopic : CStr) : Bool :=
  let wildCard := strchr topic star
  ((wildCard = none ∧ messageTopic.length = maskLen topic) ∨
    (wildCard ≠ none ∧ maskLen topic < messageTopic.length)) ∧
  strncmpEq messageTopic topic (maskLen topic)

/-- Walks the stale queue once: expired messages go, matching ones become frames. -/
def sweepStale (now : ℤ) (ttl : BitVec 32) (topic : CStr) (sessionId : Fd)
    (subscriptionId : CStr) : List ParsedMessage → BitVec 32 →
    Option (List ParsedMessage × BitVec 32 × List MessageWithFrameLen)
  | [], messageId => some ([], messageId, [])
  | pm :: rest, messageId => do
      if expired now pm.ts ttl then
        sweepStale now ttl topic sessionId subscriptionId rest messageId
      else
        let messageTopic ← pm.topic
        if staleMatches topic messageTopic then
          let body ← pm.messageBody
          let headers ← messageHeaders pm body
          let d := deliver topic body ⟨headers, messageId, []⟩ sessionId subscriptionId
          let (kept, messageId, out) ←
            sweepStale now ttl topic sessionId subscriptionId rest d.messageId
          return (kept, messageId, d.messagesOut ++ out)
        else
          let (kept, messageId, out) ←
            sweepStale now ttl topic sessionId subscriptionId rest messageId
          return (pm :: kept, messageId, out)

def distributeMessagesFromStaleQ (env : Environment) (st : StompState) (topic : CStr)
    (clientSessionId : Fd) (subscriptionId : CStr) (configuredTtl : BitVec 32) :
    Option StompState := do
  let (stale, messageId, out) ←
    sweepStale env.now configuredTtl topic clientSessionId subscriptionId st.stale st.messageId
  return { st with stale := stale, messageId := messageId, output := st.output ++ out }

theorem succ_messageId (messageId : BitVec 32) (k : ℕ) :
    messageId + 1 + BitVec.ofNat 32 k = messageId + BitVec.ofNat 32 (k + 1) := by
  rw [BitVec.ofNat_add, BitVec.add_assoc, BitVec.add_comm 1]
  rfl

theorem deliver_messagesOut (topic body : CStr) (d : Delivery) (sessionId : Fd) (id : CStr) :
    ∃ frame, (deliver topic body d sessionId id).messagesOut = d.messagesOut ++ [frame] ∧
      frame.isMessage = true ∧ frame.fd = sessionId :=
  ⟨_, rfl, messageSendWithHeaders_isMessage _ _ _, rfl⟩

theorem foldl_deliver_messagesOut (topic body : CStr) (subs : List Subscription) (d : Delivery) :
    ∃ frames, (subs.foldl (fun d sub => deliver topic body d sub.sessionId sub.id) d).messagesOut =
        d.messagesOut ++ frames ∧
      List.Forall₂ (fun frame sub => frame.isMessage = true ∧ frame.fd = sub.sessionId)
        frames subs := by
  induction subs generalizing d with
  | nil => exact ⟨[], by simp, .nil⟩
  | cons sub subs ih =>
    obtain ⟨frame, hframe, hm, hfd⟩ := deliver_messagesOut topic body d sub.sessionId sub.id
    obtain ⟨frames, hframes, hall⟩ := ih (deliver topic body d sub.sessionId sub.id)
    refine ⟨frame :: frames, ?_, .cons ⟨hm, hfd⟩ hall⟩
    rw [List.foldl_cons, hframes, hframe, List.append_assoc, List.singleton_append]

theorem exists_recipient_of_mem {frames : List MessageWithFrameLen} {subs : List Subscription}
    (h : List.Forall₂ (fun frame sub => frame.isMessage = true ∧ frame.fd = sub.sessionId)
      frames subs) {frame : MessageWithFrameLen} (hf : frame ∈ frames) :
    ∃ sub ∈ subs, frame.isMessage = true ∧ frame.fd = sub.sessionId := by
  induction h with
  | nil => simp at hf
  | cons hr _ ih =>
    rcases List.mem_cons.mp hf with rfl | hf
    · exact ⟨_, by simp, hr⟩
    · obtain ⟨sub, hs, hr⟩ := ih hf
      exact ⟨sub, by simp [hs], hr⟩

theorem pickNext_snd (subs : List Subscription) (counter : BitVec 32) :
    (pickNext subs counter).2 = counter + 1 := rfl

theorem pickNext_subset (subs : List Subscription) (counter : BitVec 32) :
    ∀ sub ∈ (pickNext subs counter).1, sub ∈ subs := by
  intro sub hs
  simp only [pickNext, Option.mem_toList] at hs
  exact List.mem_of_getElem? hs

theorem pickNext_ne_nil {subs : List Subscription} (h : subs ≠ []) (counter : BitVec 32) :
    (pickNext subs counter).1 ≠ [] := by
  have hlt : counter.toNat % subs.length < subs.length :=
    Nat.mod_lt _ (List.length_pos_of_ne_nil h)
  simp [pickNext, List.getElem?_eq_getElem hlt]

/-- The subscriptions a message goes to: all matching ones, or one of a worker queue. -/
def recipients (st : StompState) (topic : CStr) : List Subscription :=
  if topic.head? = some 35 then (pickNext (pubsubFindMatching st.topics topic) st.nextCounter).1
  else pubsubFindMatching st.topics topic

theorem recipients_subset (st : StompState) (topic : CStr) :
    ∀ sub ∈ recipients st topic, sub ∈ pubsubFindMatching st.topics topic := by
  intro sub hs
  unfold recipients at hs
  split_ifs at hs with h
  · exact pickNext_subset _ _ sub hs
  · exact hs

theorem recipients_ne_nil {st : StompState} {topic : CStr}
    (h : pubsubFindMatching st.topics topic ≠ []) : recipients st topic ≠ [] := by
  unfold recipients
  split_ifs
  · exact pickNext_ne_nil h _
  · exact h

def delivery (env : Environment) (st : StompState) (topic body : CStr) (headers : AaItem) :
    Delivery :=
  (recipients st topic).foldl (fun d sub => deliver topic body d sub.sessionId sub.id)
    ⟨if strncmpEq topic (lit "DIAG") 4 then createDiagnosticHeaders env st headers body else headers,
      st.messageId, []⟩

theorem delivery_messagesOut (env : Environment) (st : StompState) (topic body : CStr)
    (headers : AaItem) :
    List.Forall₂ (fun frame sub => frame.isMessage = true ∧ frame.fd = sub.sessionId)
      (delivery env st topic body headers).messagesOut (recipients st topic) := by
  obtain ⟨frames, hf, hall⟩ := foldl_deliver_messagesOut topic body (recipients st topic)
    ⟨if strncmpEq topic (lit "DIAG") 4 then createDiagnosticHeaders env st headers body else headers,
      st.messageId, []⟩
  rw [delivery, hf]
  simpa using hall

theorem distributeMessages_expired {cfg : Config} {env : Environment} {st : StompState}
    {input : MessageWithTimestamp} {pm : ParsedMessage}
    (he : expired env.now input.ts cfg.ttl = true) :
    distributeMessages cfg env st input pm = some (st, .consumed) := by
  simp [distributeMessages, he]

theorem distributeMessages_no_match {cfg : Config} {env : Environment} {st : StompState}
    {input : MessageWithTimestamp} {pm : ParsedMessage} {topic : CStr}
    (ht : pm.topic = some topic) (hm : pubsubFindMatching st.topics topic = []) :
    distributeMessages cfg env st input pm = some (st, .consumed) := by
  by_cases he : expired env.now input.ts cfg.ttl = true
  · exact distributeMessages_expired he
  · simp [distributeMessages, he, ht, hm]

/-- With a match there is always a frame, so the message is always consumed. -/
theorem distributeMessages_match {cfg : Config} {env : Environment} {st : StompState}
    {input : MessageWithTimestamp} {pm : ParsedMessage} {topic : CStr}
    (he : expired env.now input.ts cfg.ttl = false) (ht : pm.topic = some topic)
    (hm : pubsubFindMatching st.topics topic ≠ []) :
    distributeMessages cfg env st input pm = pm.messageBody.bind fun body =>
      (messageHeaders pm body).map fun headers =>
        ({ st with
          output := st.output ++ (delivery env st topic body headers).messagesOut
          messageId := (delivery env st topic body headers).messageId
          nextCounter := if topic.head? = some 35 then st.nextCounter + 1 else st.nextCounter },
        .consumed) := by
  have hpos : 0 < (pubsubFindMatching st.topics topic).length := List.length_pos_of_ne_nil hm
  cases hb : pm.messageBody with
  | none => simp [distributeMessages, he, ht, hb, hpos]
  | some body =>
    cases hh : messageHeaders pm body with
    | none => simp [distributeMessages, he, ht, hb, hh, hpos]
    | some headers =>
      have hlen : 0 < (delivery env st topic body headers).messagesOut.length := by
        rw [(delivery_messagesOut env st topic body headers).length_eq]
        exact List.length_pos_of_ne_nil (recipients_ne_nil hm)
      unfold delivery recipients at hlen
      unfold delivery recipients
      by_cases hash : topic.head? = some 35
      · simp only [hash, if_true] at hlen
        simp [distributeMessages, he, ht, hb, hh, hpos, hash, hlen, pickNext_snd]
      · simp only [hash, if_false] at hlen
        simp [distributeMessages, he, ht, hb, hh, hpos, hash, hlen]

/-- Everything distribution can do: nothing, or frames for the recipients. The stale queue
is never touched, because the branch that fills it needs a match without a frame. -/
theorem distributeMessages_cases {cfg : Config} {env : Environment} {st st' : StompState}
    {input : MessageWithTimestamp} {pm : ParsedMessage} {c : Consumption}
    (h : distributeMessages cfg env st input pm = some (st', c)) :
    c = .consumed ∧ (st' = st ∨ ∃ topic frames messageId nextCounter,
      pm.topic = some topic ∧
      List.Forall₂ (fun frame sub => frame.isMessage = true ∧ frame.fd = sub.sessionId)
        frames (recipients st topic) ∧
      st' = { st with
        output := st.output ++ frames
        messageId := messageId
        nextCounter := nextCounter }) := by
  by_cases he : expired env.now input.ts cfg.ttl = true
  · rw [distributeMessages_expired he] at h
    simp only [Option.some.injEq, Prod.mk.injEq] at h
    exact ⟨h.2.symm, .inl h.1.symm⟩
  · cases ht : pm.topic with
    | none => simp [distributeMessages, he, ht] at h
    | some topic =>
      by_cases hm : pubsubFindMatching st.topics topic = []
      · rw [distributeMessages_no_match ht hm] at h
        simp only [Option.some.injEq, Prod.mk.injEq] at h
        exact ⟨h.2.symm, .inl h.1.symm⟩
      · rw [distributeMessages_match (by simpa using he) ht hm] at h
        obtain ⟨body, -, h⟩ := Option.bind_eq_some_iff.mp h
        obtain ⟨headers, -, h⟩ := Option.map_eq_some_iff.mp h
        simp only [Prod.mk.injEq] at h
        exact ⟨h.2.symm, .inr ⟨topic, _, _, _, rfl, delivery_messagesOut env st topic body headers,
          h.1.symm⟩⟩

section Sweep
variable {now : ℤ} {ttl : BitVec 32} {topic id : CStr} {sessionId : Fd}

/-- A sweep that goes through, message by message: the queue and the counter before it, then the
messages that stay, the counter after it and the frames. -/
inductive Swept (now : ℤ) (ttl : BitVec 32) (topic : CStr) (sessionId : Fd) (id : CStr) :
    List ParsedMessage → BitVec 32 → List ParsedMessage → BitVec 32 → List MessageWithFrameLen → Prop
  | nil (messageId : BitVec 32) : Swept now ttl topic sessionId id [] messageId [] messageId []
  | dropped {pm : ParsedMessage} {rest kept : List ParsedMessage} {messageId messageId' : BitVec 32}
      {out : List MessageWithFrameLen} (he : expired now pm.ts ttl = true)
      (hrest : Swept now ttl topic sessionId id rest messageId kept messageId' out) :
      Swept now ttl topic sessionId id (pm :: rest) messageId kept messageId' out
  | delivered {pm : ParsedMessage} {rest kept : List ParsedMessage} {messageId messageId' : BitVec 32}
      {out : List MessageWithFrameLen} {messageTopic body : CStr} {headers : AaItem}
      (he : expired now pm.ts ttl = false) (ht : pm.topic = some messageTopic)
      (hm : staleMatches topic messageTopic = true) (hh : messageHeaders pm body = some headers)
      (hrest : Swept now ttl topic sessionId id rest
        (deliver topic body ⟨headers, messageId, []⟩ sessionId id).messageId kept messageId' out) :
      Swept now ttl topic sessionId id (pm :: rest) messageId kept messageId'
        ((deliver topic body ⟨headers, messageId, []⟩ sessionId id).messagesOut ++ out)
  | stays {pm : ParsedMessage} {rest kept : List ParsedMessage} {messageId messageId' : BitVec 32}
      {out : List MessageWithFrameLen} {messageTopic : CStr} (he : expired now pm.ts ttl = false)
      (ht : pm.topic = some messageTopic) (hm : staleMatches topic messageTopic = false)
      (hrest : Swept now ttl topic sessionId id rest messageId kept messageId' out) :
      Swept now ttl topic sessionId id (pm :: rest) messageId (pm :: kept) messageId' out

theorem swept_of_sweepStale {stale kept : List ParsedMessage} {messageId messageId' : BitVec 32}
    {out : List MessageWithFrameLen}
    (h : sweepStale now ttl topic sessionId id stale messageId = some (kept, messageId', out)) :
    Swept now ttl topic sessionId id stale messageId kept messageId' out := by
  induction stale generalizing messageId kept messageId' out with
  | nil =>
    simp only [sweepStale, Option.some.injEq, Prod.mk.injEq] at h
    obtain ⟨rfl, rfl, rfl⟩ := h
    exact .nil _
  | cons pm rest ih =>
    simp only [sweepStale] at h
    split_ifs at h with he
    · exact .dropped he (ih h)
    · rw [Bool.not_eq_true] at he
      obtain ⟨messageTopic, ht, h⟩ := Option.bind_eq_some_iff.mp h
      split_ifs at h with hm
      · obtain ⟨body, -, h⟩ := Option.bind_eq_some_iff.mp h
        obtain ⟨headers, hh, h⟩ := Option.bind_eq_some_iff.mp h
        obtain ⟨⟨kept', mid, out'⟩, hrest, h⟩ := Option.bind_eq_some_iff.mp h
        simp only [pure, Option.some.injEq, Prod.mk.injEq] at h
        obtain ⟨rfl, rfl, rfl⟩ := h
        exact .delivered he ht hm hh (ih hrest)
      · rw [Bool.not_eq_true] at hm
        obtain ⟨⟨kept', mid, out'⟩, hrest, h⟩ := Option.bind_eq_some_iff.mp h
        simp only [pure, Option.some.injEq, Prod.mk.injEq] at h
        obtain ⟨rfl, rfl, rfl⟩ := h
        exact .stays he ht hm (ih hrest)

theorem Swept.frames {stale kept : List ParsedMessage} {messageId messageId' : BitVec 32} {out : List MessageWithFrameLen}
    (h : Swept now ttl topic sessionId id stale messageId kept messageId' out) :
    ∀ frame ∈ out, frame.isMessage = true ∧ frame.fd = sessionId := by
  induction h with
  | nil => simp
  | dropped _ _ ih => exact ih
  | stays _ _ _ _ ih => exact ih
  | @delivered pm rest kept messageId messageId' out messageTopic body headers he ht hm hh hrest ih =>
    obtain ⟨frame, hd, hmsg, hfd⟩ := deliver_messagesOut topic body ⟨headers, messageId, []⟩ sessionId id
    rw [hd]
    exact List.forall_mem_cons.2 ⟨⟨hmsg, hfd⟩, ih⟩

end Sweep

theorem distributeMessagesFromStaleQ_cases {env : Environment} {st st' : StompState}
    {topic id : CStr} {sessionId : Fd} {ttl : BitVec 32}
    (h : distributeMessagesFromStaleQ env st topic sessionId id ttl = some st') :
    ∃ stale messageId frames,
      (∀ frame ∈ frames, frame.isMessage = true ∧ frame.fd = sessionId) ∧
      st' = { st with stale := stale, messageId := messageId, output := st.output ++ frames } := by
  obtain ⟨⟨stale, mid, out⟩, hs, h⟩ := Option.bind_eq_some_iff.mp h
  simp only [pure, Option.some.injEq] at h
  exact ⟨stale, mid, out, (swept_of_sweepStale hs).frames, h.symm⟩

end StompBroker.Distribute
