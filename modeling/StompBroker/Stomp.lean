import StompBroker.Distribute

/-! The STOMP frame processor: one call handles one message of the input queue. -/
namespace StompBroker.Stomp
open CString SessionStorage StompSession Message StompParser PubSub Distribute

def stompStart : StompState := ⟨pubsubInit, stompSessionInit, [], [], 0, 0⟩

/-- The switch over the frame command: the new state and the reply, if any. -/
def processCommand (cfg : Config) (env : Environment) (st : StompState)
    (input : MessageWithTimestamp) (pm : ParsedMessage) :
    Option (StompState × Option MessageWithFrameLen) :=
  let clientId := input.fd
  let clientIdWoFlags := sessionWithoutFlags input.fd
  let clientConnected := stompSessionIsConnected st.connected clientIdWoFlags
  let error (reason : String) := some (st, some (messageError input.fd (lit reason)))
  match pm.command with
  | .connect =>
      if clientConnected then error "Can not connect, client is already connected!"
      else some ({ st with connected := stompSessionSetConnected st.connected clientIdWoFlags 1 },
        some (messageConnected input.fd clientIdWoFlags))
  | .disconnect =>
      if clientConnected then
        some ({ st with
          topics := pubsubRemoveClient st.topics clientId
          connected := stompSessionSetConnected st.connected clientIdWoFlags 0 }, none)
      else error "Can not disconnect, client is not connected yet!"
  | .subscribe =>
      match pm.id, pm.topic with
      | none, _ => error "No id defined!"
      | some _, none => error "No destination defined!"
      | some id, some topic =>
          if clientConnected then
            (distributeMessagesFromStaleQ env
              { st with topics := pubsubSubscribe st.topics topic clientId id }
              topic clientId id cfg.ttl).map fun st => (st, none)
          else error "Not connected!"
  | .unsubscribe =>
      match pm.id, pm.topic with
      | none, _ => error "No id defined!"
      | some _, none => error "No destination defined!"
      | some id, some topic =>
          if clientConnected then
            some ({ st with topics := pubsubUnsubscribe st.topics topic clientId id }, none)
          else error "Not connected!"
  | .send =>
      match pm.topic with
      | none => error "No topic defined!"
      | some topic =>
          if clientConnected then
            if strchr topic star ≠ none then
              error "Can not have wildcard in message destination!\n"
            else (distributeMessages cfg env st input pm).map fun p => (p.1, none)
          else error "Not connected!"
  | .diagnostic =>
      match pm.messageBody with
      | none => error "Empty message_body!"
      | some body => some (st, some (createDiagnosticMessage env st input body))
  | .unknown => error "Invalid message!"

def isPurge (fd : Fd) : Bool := fd ≠ sessionWithoutFlags fd ∧ sessionIsCmdPurge fd

/-- The purged session, or zero. `none` when the frame makes the broker fault. -/
def stompProcess (cfg : Config) (env : Environment) (st : StompState)
    (input : MessageWithTimestamp) : Option (StompState × Fd) := do
  if isPurge input.fd then
    return ({ st with
      topics := pubsubRemoveClient st.topics (sessionWoCmdPurge input.fd)
      connected := stompSessionSetConnected st.connected (sessionWithoutFlags input.fd) 0 },
      sessionWithoutFlags input.fd)
  let pm ← parseMessage env.past input
  let (st, resp) ← processCommand cfg env st input pm
  match resp, pm.receiptId with
  | some resp, _ => return ({ st with output := st.output ++ [resp] }, 0)
  | none, some receiptId =>
      return ({ st with output := st.output ++ [messageReceipt input.fd receiptId] }, 0)
  | none, none => return (st, 0)

theorem stompProcess_purge {cfg : Config} {env : Environment} {st : StompState}
    {input : MessageWithTimestamp} (hp : isPurge input.fd = true) :
    stompProcess cfg env st input = some ({ st with
      topics := pubsubRemoveClient st.topics (sessionWoCmdPurge input.fd)
      connected := stompSessionSetConnected st.connected (sessionWithoutFlags input.fd) 0 },
      sessionWithoutFlags input.fd) := by
  simp [stompProcess, hp]

/-- The frame that ends a call: the reply of the switch, else the receipt asked for. -/
def closingFrame (input : MessageWithTimestamp) (pm : ParsedMessage) (resp : Option MessageWithFrameLen) :
    List MessageWithFrameLen :=
  (resp.or (pm.receiptId.map (messageReceipt input.fd))).toList

theorem stompProcess_frame {cfg : Config} {env : Environment} {st : StompState}
    {input : MessageWithTimestamp} {pm : ParsedMessage} (hp : isPurge input.fd = false)
    (hpm : parseMessage env.past input = some pm) :
    stompProcess cfg env st input = (processCommand cfg env st input pm).map fun p =>
      ({ p.1 with output := p.1.output ++ closingFrame input pm p.2 }, 0) := by
  simp only [stompProcess, hp, Bool.false_eq_true, if_false, hpm, Option.bind_eq_bind, Option.bind_some]
  cases hc : processCommand cfg env st input pm with
  | none => rfl
  | some p =>
    obtain ⟨st', resp⟩ := p
    cases resp with
    | some r => simp [closingFrame]
    | none => cases hr : pm.receiptId <;> simp [closingFrame, hr]

/-- An accepted DISCONNECT that returns has removed the client and cleared its bit. -/
theorem stompProcess_disconnect {cfg : Config} {env : Environment} {st st' : StompState}
    {input : MessageWithTimestamp} {ret : Fd} (hp : isPurge input.fd = false)
    (hc : parseCommand input.content = .disconnect)
    (hn : stompSessionIsConnected st.connected (sessionWithoutFlags input.fd) = true)
    (h : stompProcess cfg env st input = some (st', ret)) :
    st'.topics = pubsubRemoveClient st.topics input.fd ∧
    st'.connected = stompSessionSetConnected st.connected (sessionWithoutFlags input.fd) 0 := by
  simp only [stompProcess, hp, Bool.false_eq_true, if_false] at h
  obtain ⟨pm, hpm, h⟩ := Option.bind_eq_some_iff.mp h
  have hcmd : pm.command = .disconnect := (parseMessage_command hpm).trans hc
  simp only [processCommand, hcmd, hn, if_true, Option.bind_eq_bind, Option.bind_some] at h
  cases hr : pm.receiptId <;> simp only [hr, pure, Option.some.injEq, Prod.mk.injEq] at h
  · exact ⟨h.1 ▸ rfl, h.1 ▸ rfl⟩
  · exact ⟨h.1 ▸ rfl, h.1 ▸ rfl⟩

/-- What a call does to the subscription list and the connected bitmap, with the checks
that guard each change. -/
inductive SessionChange (st : StompState) (input : MessageWithTimestamp) :
    Topics → SessionConnected → Prop
  | keep : SessionChange st input st.topics st.connected
  | purge (hp : isPurge input.fd = true) :
      SessionChange st input (pubsubRemoveClient st.topics (sessionWoCmdPurge input.fd))
        (stompSessionSetConnected st.connected (sessionWithoutFlags input.fd) 0)
  | connect (hp : isPurge input.fd = false) (hc : parseCommand input.content = .connect)
      (hn : stompSessionIsConnected st.connected (sessionWithoutFlags input.fd) = false) :
      SessionChange st input st.topics
        (stompSessionSetConnected st.connected (sessionWithoutFlags input.fd) 1)
  | disconnect (hp : isPurge input.fd = false) (hc : parseCommand input.content = .disconnect)
      (hn : stompSessionIsConnected st.connected (sessionWithoutFlags input.fd) = true) :
      SessionChange st input (pubsubRemoveClient st.topics input.fd)
        (stompSessionSetConnected st.connected (sessionWithoutFlags input.fd) 0)
  | subscribe (topic id : CStr) (hp : isPurge input.fd = false)
      (hc : parseCommand input.content = .subscribe)
      (hn : stompSessionIsConnected st.connected (sessionWithoutFlags input.fd) = true) :
      SessionChange st input (pubsubSubscribe st.topics topic input.fd id) st.connected
  | unsubscribe (topic id : CStr) (hp : isPurge input.fd = false)
      (hc : parseCommand input.content = .unsubscribe)
      (hn : stompSessionIsConnected st.connected (sessionWithoutFlags input.fd) = true) :
      SessionChange st input (pubsubUnsubscribe st.topics topic input.fd id) st.connected

/-- Where a frame of a call comes from: a reply to the sender, a stale message for the
sender's new subscription, or a MESSAGE for a subscription of the list. -/
inductive FrameOrigin (st : StompState) (input : MessageWithTimestamp)
    (frame : MessageWithFrameLen) : Prop
  | reply (hm : frame.isMessage = false) (hf : frame.fd = input.fd)
  | stale (hp : isPurge input.fd = false) (hc : parseCommand input.content = .subscribe)
      (hn : stompSessionIsConnected st.connected (sessionWithoutFlags input.fd) = true)
      (hm : frame.isMessage = true) (hf : frame.fd = input.fd)
  | message (sub : Subscription) (hs : sub ∈ st.topics) (hp : isPurge input.fd = false)
      (hc : parseCommand input.content = .send)
      (hm : frame.isMessage = true) (hf : frame.fd = sub.sessionId)

theorem createDiagnosticMessage_cases (env : Environment) (st : StompState) (input : MessageWithTimestamp)
    (body : CStr) :
    createDiagnosticMessage env st input body = messageError input.fd (lit "Invalid message!") ∨
      ∃ value, createDiagnosticMessage env st input body = messageDiagnostic input.fd body value := by
  let Reply (frame : MessageWithFrameLen) : Prop :=
    frame = messageError input.fd (lit "Invalid message!") ∨ ∃ value, frame = messageDiagnostic input.fd body value
  have hdiag : ∀ value, Reply (messageDiagnostic input.fd body value) := fun value => .inr ⟨value, rfl⟩
  change Reply (createDiagnosticMessage env st input body)
  unfold createDiagnosticMessage
  -- eight words are answered, any other body is refused
  iterate 8 refine iteInduction (fun _ => hdiag _) fun _ => ?_
  exact .inl rfl

theorem createDiagnosticMessage_reply (env : Environment) (st : StompState)
    (input : MessageWithTimestamp) (body : CStr) :
    (createDiagnosticMessage env st input body).fd = input.fd ∧
      (createDiagnosticMessage env st input body).isMessage = false := by
  obtain h | ⟨value, h⟩ := createDiagnosticMessage_cases env st input body
  · simp [h]
  · simp [h]

/-- Everything the switch can do: refuse the frame with a reason, or accept it after the check of
the connected bit. -/
inductive Outcome (cfg : Config) (env : Environment) (st : StompState)
    (input : MessageWithTimestamp) (pm : ParsedMessage) :
    StompState → Option MessageWithFrameLen → Prop
  | refuse (reason : String) :
      Outcome cfg env st input pm st (some (messageError input.fd (lit reason)))
  | connect (hc : pm.command = .connect)
      (hn : stompSessionIsConnected st.connected (sessionWithoutFlags input.fd) = false) :
      Outcome cfg env st input pm
        { st with connected := stompSessionSetConnected st.connected (sessionWithoutFlags input.fd) 1 }
        (some (messageConnected input.fd (sessionWithoutFlags input.fd)))
  | disconnect (hc : pm.command = .disconnect)
      (hn : stompSessionIsConnected st.connected (sessionWithoutFlags input.fd) = true) :
      Outcome cfg env st input pm
        { st with
          topics := pubsubRemoveClient st.topics input.fd
          connected := stompSessionSetConnected st.connected (sessionWithoutFlags input.fd) 0 } none
  | subscribe {id topic : CStr} {st' : StompState} (hc : pm.command = .subscribe)
      (hn : stompSessionIsConnected st.connected (sessionWithoutFlags input.fd) = true)
      (hd : distributeMessagesFromStaleQ env
        { st with topics := pubsubSubscribe st.topics topic input.fd id }
        topic input.fd id cfg.ttl = some st') :
      Outcome cfg env st input pm st' none
  | unsubscribe {id topic : CStr} (hc : pm.command = .unsubscribe)
      (hn : stompSessionIsConnected st.connected (sessionWithoutFlags input.fd) = true) :
      Outcome cfg env st input pm
        { st with topics := pubsubUnsubscribe st.topics topic input.fd id } none
  | send {st' : StompState} {consumption : Consumption} (hc : pm.command = .send)
      (hd : distributeMessages cfg env st input pm = some (st', consumption)) :
      Outcome cfg env st input pm st' none
  | diagnostic (body : CStr) :
      Outcome cfg env st input pm st (some (createDiagnosticMessage env st input body))

def Accepted (st : StompState) (input : MessageWithTimestamp) (pm : ParsedMessage) : Prop :=
  let clientConnected := stompSessionIsConnected st.connected (sessionWithoutFlags input.fd)
  match pm.command with
  | .connect => clientConnected = false
  | .disconnect => clientConnected = true
  | .subscribe | .unsubscribe => clientConnected = true ∧ pm.id ≠ none ∧ pm.topic ≠ none
  | .send => clientConnected = true ∧ ∃ topic, pm.topic = some topic ∧ strchr topic star = none
  | .diagnostic => pm.messageBody ≠ none
  | .unknown => False

/-- The switch case by case, with the checks that were made. -/
inductive Switch (cfg : Config) (env : Environment) (st : StompState) (input : MessageWithTimestamp)
    (pm : ParsedMessage) : Option (StompState × Option MessageWithFrameLen) → Prop
  | refuse (reason : String) (hr : ¬ Accepted st input pm) :
      Switch cfg env st input pm (some (st, some (messageError input.fd (lit reason))))
  | connect (hc : pm.command = .connect)
      (hn : stompSessionIsConnected st.connected (sessionWithoutFlags input.fd) = false) :
      Switch cfg env st input pm (some
        ({ st with connected := stompSessionSetConnected st.connected (sessionWithoutFlags input.fd) 1 },
          some (messageConnected input.fd (sessionWithoutFlags input.fd))))
  | disconnect (hc : pm.command = .disconnect)
      (hn : stompSessionIsConnected st.connected (sessionWithoutFlags input.fd) = true) :
      Switch cfg env st input pm (some
        ({ st with
          topics := pubsubRemoveClient st.topics input.fd
          connected := stompSessionSetConnected st.connected (sessionWithoutFlags input.fd) 0 }, none))
  | subscribe {id topic : CStr} (hc : pm.command = .subscribe) (hi : pm.id = some id)
      (ht : pm.topic = some topic)
      (hn : stompSessionIsConnected st.connected (sessionWithoutFlags input.fd) = true) :
      Switch cfg env st input pm ((distributeMessagesFromStaleQ env
        { st with topics := pubsubSubscribe st.topics topic input.fd id }
        topic input.fd id cfg.ttl).map fun st => (st, none))
  | unsubscribe {id topic : CStr} (hc : pm.command = .unsubscribe) (hi : pm.id = some id)
      (ht : pm.topic = some topic)
      (hn : stompSessionIsConnected st.connected (sessionWithoutFlags input.fd) = true) :
      Switch cfg env st input pm (some
        ({ st with topics := pubsubUnsubscribe st.topics topic input.fd id }, none))
  | send {topic : CStr} (hc : pm.command = .send) (ht : pm.topic = some topic)
      (hn : stompSessionIsConnected st.connected (sessionWithoutFlags input.fd) = true)
      (hw : strchr topic star = none) :
      Switch cfg env st input pm ((distributeMessages cfg env st input pm).map fun p => (p.1, none))
  | diagnostic {body : CStr} (hc : pm.command = .diagnostic) (hb : pm.messageBody = some body) :
      Switch cfg env st input pm (some (st, some (createDiagnosticMessage env st input body)))

theorem processCommand_switch (cfg : Config) (env : Environment) (st : StompState)
    (input : MessageWithTimestamp) (pm : ParsedMessage) :
    Switch cfg env st input pm (processCommand cfg env st input pm) := by
  unfold processCommand
  cases hc : pm.command with
  | connect =>
    dsimp only
    split_ifs with hn
    · exact .refuse _ (by simp [Accepted, hc, hn])
    · exact .connect hc (by simpa using hn)
  | disconnect =>
    dsimp only
    split_ifs with hn
    · exact .disconnect hc hn
    · exact .refuse _ (by simp [Accepted, hc, hn])
  | subscribe =>
    dsimp only
    split
    · rename_i hi
      exact .refuse _ (by simp [Accepted, hc, hi])
    · rename_i ht
      exact .refuse _ (by simp [Accepted, hc, ht])
    · rename_i hi ht
      split_ifs with hn
      · exact .subscribe hc hi ht hn
      · exact .refuse _ (by simp [Accepted, hc, hn])
  | unsubscribe =>
    dsimp only
    split
    · rename_i hi
      exact .refuse _ (by simp [Accepted, hc, hi])
    · rename_i ht
      exact .refuse _ (by simp [Accepted, hc, ht])
    · rename_i hi ht
      split_ifs with hn
      · exact .unsubscribe hc hi ht hn
      · exact .refuse _ (by simp [Accepted, hc, hn])
  | send =>
    dsimp only
    split
    · rename_i ht
      exact .refuse _ (by simp [Accepted, hc, ht])
    · rename_i ht
      split_ifs with hn hw
      · exact .refuse _ (by simpa [Accepted, hc, ht] using fun _ => hw)
      · exact .send hc ht hn (by simpa using hw)
      · exact .refuse _ (by simp [Accepted, hc, hn])
  | diagnostic =>
    dsimp only
    split
    · rename_i hb
      exact .refuse _ (by simp [Accepted, hc, hb])
    · rename_i hb
      exact .diagnostic hc hb
  | unknown => exact .refuse _ (by simp [Accepted, hc])

theorem processCommand_outcome {cfg : Config} {env : Environment} {st st' : StompState}
    {input : MessageWithTimestamp} {pm : ParsedMessage} {resp : Option MessageWithFrameLen}
    (h : processCommand cfg env st input pm = some (st', resp)) :
    Outcome cfg env st input pm st' resp := by
  have hswitch := processCommand_switch cfg env st input pm
  generalize processCommand cfg env st input pm = result at h hswitch
  cases hswitch with
  | refuse reason hr =>
    cases h
    exact .refuse reason
  | connect hc hn =>
    cases h
    exact .connect hc hn
  | disconnect hc hn =>
    cases h
    exact .disconnect hc hn
  | subscribe hc hi ht hn =>
    obtain ⟨st'', hd, he⟩ := Option.map_eq_some_iff.mp h
    cases he
    exact .subscribe hc hn hd
  | unsubscribe hc hi ht hn =>
    cases h
    exact .unsubscribe hc hn
  | send hc ht hn hw =>
    obtain ⟨⟨st'', consumption⟩, hd, he⟩ := Option.map_eq_some_iff.mp h
    cases he
    exact .send hc hd
  | diagnostic hc hb =>
    cases h
    exact .diagnostic _

/-- The change of the sessions is one of the guarded ones. -/
theorem Outcome.sessionChange {cfg : Config} {env : Environment} {st st' : StompState}
    {input : MessageWithTimestamp} {pm : ParsedMessage} {resp : Option MessageWithFrameLen}
    (hp : isPurge input.fd = false) (hpm : pm.command = parseCommand input.content)
    (h : Outcome cfg env st input pm st' resp) :
    SessionChange st input st'.topics st'.connected := by
  cases h with
  | refuse => exact .keep
  | connect hc hn => exact .connect hp (hpm ▸ hc) hn
  | disconnect hc hn => exact .disconnect hp (hpm ▸ hc) hn
  | subscribe hc hn hd =>
    obtain ⟨stale, messageId, frames, -, rfl⟩ := distributeMessagesFromStaleQ_cases hd
    exact .subscribe _ _ hp (hpm ▸ hc) hn
  | unsubscribe hc hn => exact .unsubscribe _ _ hp (hpm ▸ hc) hn
  | send hc hd =>
    obtain ⟨-, rfl | ⟨topic, frames, messageId, nextCounter, -, -, rfl⟩⟩ := distributeMessages_cases hd
    · exact .keep
    · exact .keep
  | diagnostic => exact .keep

theorem Outcome.frames {cfg : Config} {env : Environment} {st st' : StompState}
    {input : MessageWithTimestamp} {pm : ParsedMessage} {resp : Option MessageWithFrameLen}
    (hp : isPurge input.fd = false) (hpm : pm.command = parseCommand input.content)
    (h : Outcome cfg env st input pm st' resp) :
    ∃ frames, st'.output = st.output ++ frames ∧ ∀ frame ∈ frames, FrameOrigin st input frame := by
  cases h with
  | refuse | connect | disconnect | unsubscribe | diagnostic => exact ⟨[], by simp⟩
  | subscribe hc hn hd =>
    obtain ⟨stale, messageId, frames, hf, rfl⟩ := distributeMessagesFromStaleQ_cases hd
    refine ⟨frames, rfl, fun frame hm => ?_⟩
    exact .stale hp (hpm ▸ hc) hn (hf frame hm).1 (hf frame hm).2
  | send hc hd =>
    obtain ⟨-, rfl | ⟨topic, frames, messageId, nextCounter, -, hall, rfl⟩⟩ :=
      distributeMessages_cases hd
    · exact ⟨[], by simp⟩
    · refine ⟨frames, rfl, fun frame hm => ?_⟩
      obtain ⟨sub, hs, hmsg, hfd⟩ := exists_recipient_of_mem hall hm
      exact .message sub (mem_of_mem_pubsubFindMatching (recipients_subset st topic sub hs))
        hp (hpm ▸ hc) hmsg hfd

theorem Outcome.reply {cfg : Config} {env : Environment} {st st' : StompState}
    {input : MessageWithTimestamp} {pm : ParsedMessage} {r : MessageWithFrameLen}
    (h : Outcome cfg env st input pm st' (some r)) : r.isMessage = false ∧ r.fd = input.fd := by
  cases h with
  | refuse => exact ⟨rfl, rfl⟩
  | connect => exact ⟨rfl, rfl⟩
  | diagnostic body => exact (createDiagnosticMessage_reply env st input body).symm

/-- Everything one call can do to the sessions and the output queue. -/
theorem stompProcess_spec {cfg : Config} {env : Environment} {st st' : StompState}
    {input : MessageWithTimestamp} {ret : Fd}
    (h : stompProcess cfg env st input = some (st', ret)) :
    SessionChange st input st'.topics st'.connected ∧
    ∃ frames, st'.output = st.output ++ frames ∧ ∀ frame ∈ frames, FrameOrigin st input frame := by
  unfold stompProcess at h
  split_ifs at h with hp
  · simp only [pure, Option.some.injEq, Prod.mk.injEq] at h
    obtain ⟨rfl, -⟩ := h
    exact ⟨.purge hp, [], by simp⟩
  · obtain ⟨pm, hpm, h⟩ := Option.bind_eq_some_iff.mp h
    obtain ⟨⟨st₁, resp⟩, hc, h⟩ := Option.bind_eq_some_iff.mp h
    have hpn : isPurge input.fd = false := by simpa using hp
    have houtcome := processCommand_outcome hc
    have hch := houtcome.sessionChange hpn (parseMessage_command hpm)
    obtain ⟨frames, hout, horigin⟩ := houtcome.frames hpn (parseMessage_command hpm)
    have snoc : ∀ r : MessageWithFrameLen, r.isMessage = false → r.fd = input.fd →
        ∀ frame ∈ frames ++ [r], FrameOrigin st input frame := by
      intro r hm hfd frame hf
      rcases List.mem_append.mp hf with hf | hf
      · exact horigin frame hf
      · rw [List.mem_singleton] at hf
        exact hf ▸ .reply hm hfd
    cases resp with
    | some r =>
      simp only [pure, Option.some.injEq, Prod.mk.injEq] at h
      obtain ⟨rfl, -⟩ := h
      exact ⟨hch, frames ++ [r], by simp [hout], snoc r houtcome.reply.1 houtcome.reply.2⟩
    | none =>
      cases hr : pm.receiptId with
      | some receiptId =>
        simp only [hr, pure, Option.some.injEq, Prod.mk.injEq] at h
        obtain ⟨rfl, -⟩ := h
        exact ⟨hch, frames ++ [messageReceipt input.fd receiptId], by simp [hout], snoc _ rfl rfl⟩
      | none =>
        simp only [hr, pure, Option.some.injEq, Prod.mk.injEq] at h
        obtain ⟨rfl, -⟩ := h
        exact ⟨hch, frames, hout, horigin⟩

end StompBroker.Stomp
