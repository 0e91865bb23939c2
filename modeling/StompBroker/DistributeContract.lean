import StompBroker.Stomp

/-! The delivery contract of an accepted message: relayed, retained or dropped. -/
namespace StompBroker.DistributeContract
open CString SessionStorage Message StompParser PubSub Distribute

/-- The three outcomes promised for a message to topic `t`: relayed when some subscription
matches, retained in the stale queue while there is a time to live and room, and otherwise
dropped without a trace. -/
structure DeliveryContract (cfg : Config) (st : StompState) (pm : ParsedMessage) (t : CStr)
    (result : Option (StompState × Consumption)) : Prop where
  relayed : pubsubFindMatching st.topics t ≠ [] →
    ∃ st' frames, result = some (st', .consumed) ∧ frames ≠ [] ∧
      (∀ frame ∈ frames, frame.isMessage = true) ∧
      st'.output = st.output ++ frames ∧ st'.stale = st.stale
  retained : pubsubFindMatching st.topics t = [] → cfg.ttl ≠ 0 →
    st.stale.length < cfg.maxStaleQueueSize.toNat →
    ∃ st', result = some (st', .notConsumed) ∧ st'.output = st.output ∧ st'.stale = st.stale ++ [pm]
  dropped : pubsubFindMatching st.topics t = [] →
    (cfg.ttl = 0 ∨ cfg.maxStaleQueueSize.toNat ≤ st.stale.length) →
    ∃ st', result = some (st', .consumed) ∧ st'.output = st.output ∧ st'.stale = st.stale

theorem aaMerge_isSome (target : AssociativeArray.AaItem) {tree : AssociativeArray.AaItem}
    (h : tree ≠ .nil) :
    (AssociativeArray.aaMerge target tree).isSome = true := by
  cases tree with
  | nil => exact absurd rfl h
  | node _ _ _ _ _ => rfl

/-- A parsed message with a destination and a body can always be relayed. -/
theorem messageHeaders_isSome {past : List UInt8} {input : MessageWithTimestamp}
    {pm : ParsedMessage} {t : CStr} (hp : parseMessage past input = some pm)
    (ht : pm.topic = some t) (body : CStr) : (messageHeaders pm body).isSome = true := by
  have hne := parseMessage_headers_ne_nil hp ht
  simpa [messageHeaders] using aaMerge_isSome .nil hne

theorem distributeMessages_relayed {cfg : Config} {env : Environment} {st : StompState}
    {input : MessageWithTimestamp} {pm : ParsedMessage} {t body : CStr}
    (hp : parseMessage env.past input = some pm) (ht : pm.topic = some t)
    (hb : pm.messageBody = some body) (hage : expired env.now input.ts cfg.ttl = false)
    (hm : pubsubFindMatching st.topics t ≠ []) :
    ∃ st' frames, distributeMessages cfg env st input pm = some (st', .consumed) ∧ frames ≠ [] ∧
      (∀ frame ∈ frames, frame.isMessage = true) ∧
      st'.output = st.output ++ frames ∧ st'.stale = st.stale := by
  obtain ⟨headers, hh⟩ := Option.isSome_iff_exists.mp (messageHeaders_isSome hp ht body)
  have hall := delivery_messagesOut env st t body headers
  have hne : (delivery env st t body headers).messagesOut ≠ [] := by
    intro he
    rw [he] at hall
    exact recipients_ne_nil hm (List.forall₂_nil_left_iff.mp hall)
  rw [distributeMessages_match hage ht hm, hb]
  simp only [Option.bind_some, hh, Option.map_some]
  refine ⟨_, _, rfl, hne, ?_, rfl, rfl⟩
  intro frame hf
  obtain ⟨-, -, hmsg, -⟩ := exists_recipient_of_mem hall hf
  exact hmsg

/-- The stale queue is reached from no input: the contract holds exactly when it does not
ask for retention. -/
theorem distributeMessages_contract_iff {cfg : Config} {env : Environment} {st : StompState}
    {input : MessageWithTimestamp} {pm : ParsedMessage} {t body : CStr}
    (hp : parseMessage env.past input = some pm) (ht : pm.topic = some t)
    (hb : pm.messageBody = some body) (hage : expired env.now input.ts cfg.ttl = false) :
    DeliveryContract cfg st pm t (distributeMessages cfg env st input pm) ↔
      (pubsubFindMatching st.topics t ≠ [] ∨ cfg.ttl = 0 ∨
        cfg.maxStaleQueueSize.toNat ≤ st.stale.length) := by
  constructor
  · intro hc
    by_contra hno
    push Not at hno
    obtain ⟨hm, httl, hroom⟩ := hno
    obtain ⟨st', hr, -, -⟩ := hc.retained hm httl (by omega)
    rw [distributeMessages_no_match ht hm] at hr
    simp at hr
  · intro hcond
    refine ⟨distributeMessages_relayed hp ht hb hage, ?_, ?_⟩
    · intro hm httl hroom
      rcases hcond with h | h | h
      · exact absurd hm h
      · exact absurd h httl
      · omega
    · intro hm _
      exact ⟨st, distributeMessages_no_match ht hm, rfl, rfl⟩

/-- A message to a topic without subscribers, with a time to live of five seconds. -/
def lateSend : MessageWithTimestamp :=
  ⟨7, lit "SEND\ndestination:/topic/1\n\nhello0", 1000⟩

def lateConfig : Config := ⟨5000000, 1000000⟩

def connectedState : StompState :=
  { Stomp.stompStart with
    connected := StompSession.stompSessionSetConnected StompSession.stompSessionInit 7 1 }

def lateParsed : ParsedMessage :=
  ⟨.send, .node 1 (lit "destination") (lit "/topic/1") .nil .nil, none, some (lit "hello0"),
    some (lit "/topic/1"), none, 1000⟩

theorem lateSend_parsed : parseMessage [] lateSend = some lateParsed := by decide

theorem distributeMessages_contract_iff_relayed :
    DeliveryContract lateConfig
        { connectedState with topics := [⟨9, lit "/topic/*", lit "s"⟩] } lateParsed (lit "/topic/1")
        (distributeMessages lateConfig (quietEnvironment 2000)
          { connectedState with topics := [⟨9, lit "/topic/*", lit "s"⟩] } lateSend lateParsed) :=
  (distributeMessages_contract_iff lateSend_parsed (t := lit "/topic/1") rfl
    (show lateParsed.messageBody = some (lit "hello0") from rfl) (by decide)).mpr (.inl (by decide))

/-- The message is dropped although it should wait in the stale queue. -/
theorem lateSend_not_retained :
    parseMessage (quietEnvironment 2000).past lateSend = some lateParsed ∧
    StompSession.stompSessionIsConnected connectedState.connected
      (sessionWithoutFlags lateSend.fd) = true ∧
    expired (quietEnvironment 2000).now lateSend.ts lateConfig.ttl = false ∧
    ¬ DeliveryContract lateConfig connectedState lateParsed (lit "/topic/1")
      (distributeMessages lateConfig (quietEnvironment 2000) connectedState lateSend lateParsed) := by
  refine ⟨lateSend_parsed, by decide, by decide, ?_⟩
  intro hc
  obtain ⟨st', hr, -, -⟩ := hc.retained rfl (by decide) (by decide)
  rw [distributeMessages_no_match (show lateParsed.topic = some (lit "/topic/1") from rfl) rfl] at hr
  simp at hr

end StompBroker.DistributeContract
