import StompBroker.AbstractBroker
import StompBroker.MessageIds
import StompBroker.ReaderThread

/-! The reader thread against the abstract broker. Every call of the processor is one event, so the
subscription list and all MESSAGE frames of a run are told from the calls alone. -/
namespace StompBroker.BrokerHistory
open CString AssociativeArray SessionStorage StompSession Message StompParser PubSub Distribute Stomp StompRun
open DistributeContract DeliverySet HeaderMap FrameText Relay Replies MessageIds ReaderThread TransitionSystem
open AbstractBroker (Event Rules wanting after step)

def frameMeaning (ttl : BitVec 32) (c : Call) (pm : ParsedMessage) : Event Fd Fd Subscription ParsedMessage :=
  let fd := c.input.fd
  let number := sessionWithoutFlags fd
  match pm.command, pm.id, pm.topic with
  | .connect, _, _ => .connect number
  | .disconnect, _, _ => .disconnect number fd
  | .subscribe, some id, some topic => .subscribe number ⟨fd, topic, id⟩
  | .unsubscribe, some id, some topic => .unsubscribe number ⟨fd, topic, id⟩
  | .send, _, some topic =>
      if star ∈ topic ∨ expired c.env.now c.input.ts ttl = true then .other else .publish number pm
  | _, _, _ => .other

def meaning (ttl : BitVec 32) (c : Call) : Event Fd Fd Subscription ParsedMessage :=
  if isHttpRequest c.input.content then .other
  else if isPurge c.input.fd then .purge (sessionWithoutFlags c.input.fd) (sessionWoCmdPurge c.input.fd)
  else match parseMessage c.env.past c.input with
    | none => .other
    | some pm => frameMeaning ttl c pm

/-- A worker queue starts with '#'; the counter that picks one of its subscriptions has 32 bits. -/
def stompRules : Rules Fd Subscription ParsedMessage where
  owner sub := sub.sessionId
  Wants sub pm := ∃ topic, pm.topic = some topic ∧ Matches topic sub.topicPattern
  Exclusive pm := ∃ topic, pm.topic = some topic ∧ topic.head? = some 35
  choose turns subs := subs[turns % 2 ^ 32 % subs.length]?.toList

/-- A frame shows a delivery: addressed to the session of the subscription, it parses to the body of the message and
its headers under the stamps of the delivery. Diagnostic topics bring headers of their own. -/
def Shows (frame : MessageWithFrameLen) (entry : (ParsedMessage × Subscription) × ℕ) : Prop :=
  ∃ topic body base, entry.1.1.topic = some topic ∧ entry.1.1.messageBody = some body ∧
    frame.fd = entry.1.2.sessionId ∧
    ReadsAs frame (stamped base topic entry.1.2.id (BitVec.ofNat 32 entry.2)) body ∧
    (¬ lit "DIAG" <+: topic → base = sentHeaders entry.1.1 body)

def messagesOf (output : List MessageWithFrameLen) : List MessageWithFrameLen := output.filter fun frame => frame.isMessage

structure Follows (st : StompState) (a : AbstractBroker.State Fd Subscription ParsedMessage) : Prop where
  connected : ∀ number, stompSessionIsConnected st.connected number = true ↔ number ∈ a.connected
  topics : st.topics = a.subs
  lines : LineTopics st.topics
  stale : st.stale = []
  counter : st.nextCounter = BitVec.ofNat 32 a.turns
  messageId : st.messageId = BitVec.ofNat 32 a.log.length
  messages : List.Forall₂ Shows (messagesOf st.output) a.log.zipIdx

theorem follows_start : Follows stompStart AbstractBroker.start where
  connected number := by simp [stompStart, AbstractBroker.start, stompSessionIsConnected_init]
  topics := rfl
  lines := nofun
  stale := rfl
  counter := rfl
  messageId := rfl
  messages := .nil

section Steps
variable {createAcceptKey : CStr → CStr} {cfg : Config} {st st' : StompState} {c : Call} {pm : ParsedMessage}
  {a : AbstractBroker.State Fd Subscription ParsedMessage} {topic body : CStr}

theorem Follows.reply (h : Follows st a) {frames : List MessageWithFrameLen} (hf : ∀ frame ∈ frames, frame.isMessage = false) :
    Follows { st with output := st.output ++ frames } a where
  connected := h.connected
  topics := h.topics
  lines := h.lines
  stale := h.stale
  counter := h.counter
  messageId := h.messageId
  messages := by
    have hnone : messagesOf frames = [] := List.filter_eq_nil_iff.2 fun frame hm => by simp [hf frame hm]
    rw [messagesOf, List.filter_append, ← messagesOf, ← messagesOf, hnone, List.append_nil]
    exact h.messages

theorem closingFrame_reply {resp : Option MessageWithFrameLen} (hresp : ∀ frame, resp = some frame → frame.isMessage = false) :
    ∀ frame ∈ closingFrame c.input pm resp, frame.isMessage = false := by
  intro frame hf
  rw [closingFrame, Option.mem_toList, Option.or_eq_some_iff] at hf
  rcases hf with hf | ⟨-, hf⟩
  · exact hresp frame hf
  · obtain ⟨receiptId, -, rfl⟩ := Option.map_eq_some_iff.1 hf
    exact messageReceipt_isMessage _ _

theorem wanting_eq (ht : pm.topic = some topic) (hw : star ∉ topic) (topics : Topics) :
    wanting stompRules topics pm = pubsubFindMatching topics topic := by
  classical
  rw [pubsubFindMatching_eq hw, wanting]
  exact List.filter_congr fun sub _ => by simp [stompRules, ht]

theorem recipients_eq (h : Follows st a) (ht : pm.topic = some topic) (hw : star ∉ topic) :
    AbstractBroker.recipients stompRules a.subs a.turns pm = recipients st topic := by
  have hex : stompRules.Exclusive pm ↔ topic.head? = some 35 := by simp [stompRules, ht]
  have hpick : ∀ subs, stompRules.choose a.turns subs = (pickNext subs st.nextCounter).1 := fun subs => by
    simp only [stompRules, pickNext, h.counter, BitVec.toNat_ofNat]
  rw [AbstractBroker.recipients, recipients, ← h.topics, wanting_eq ht hw, hpick]
  simp only [hex]

theorem foldl_deliver_messageId (topic body : CStr) (subs : List Subscription) (d : Delivery) :
    (subs.foldl (fun d sub => deliver topic body d sub.sessionId sub.id) d).messageId =
      d.messageId + BitVec.ofNat 32 subs.length := by
  induction subs generalizing d with
  | nil => simp
  | cons sub subs ih =>
    rw [List.foldl_cons, ih, List.length_cons, ← succ_messageId]
    rfl

theorem shows_delivery (hp : Parsed pm) (ht : pm.topic = some topic) (hb : pm.messageBody = some body) (hl : LineTopics st.topics)
    {headers : AaItem} (hh : messageHeaders pm body = some headers) {n : ℕ} (hn : st.messageId = BitVec.ofNat 32 n) :
    List.Forall₂ Shows (delivery c.env st topic body headers).messagesOut
      (((recipients st topic).map fun sub => (pm, sub)).zipIdx n) := by
  obtain ⟨hlen, hall⟩ := delivery_spec c.env st topic body (valid_messageHeaders hh)
  refine List.forall₂_iff_get.2 ⟨by simp [hlen], fun j hj hj' => ?_⟩
  have hj₂ : j < (recipients st topic).length := hlen ▸ hj
  have hc := hall j _ _ (List.getElem?_eq_getElem hj) (List.getElem?_eq_getElem hj₂)
  have hsub := mem_of_mem_pubsubFindMatching (recipients_subset st topic _ (List.getElem_mem hj₂))
  have hmap : LineMap (startHeaders c.env st topic body headers) := lineMap_startHeaders c.env st (lineMap_messageHeaders hp hh)
  rw [hn, ← BitVec.ofNat_add] at hc
  simp only [List.get_eq_getElem, List.getElem_zipIdx, List.getElem_map]
  refine ⟨topic, body, _, ht, hb, ?_,
    Carries.readsAs hc (lit "subscription") (by simp [stamped]) fun key value hv => ?_, fun hd => ?_⟩
  · obtain ⟨_, -, hf, -⟩ := hc
    rw [hf]
    rfl
  · unfold stamped at hv
    split_ifs at hv with h1 h2 h3
    · exact ⟨h1 ▸ by decide, Option.some_inj.1 hv ▸ (hl _ hsub).1⟩
    · exact ⟨h2 ▸ by decide, Option.some_inj.1 hv ▸ hp.topic topic ht⟩
    · exact ⟨h3 ▸ by decide, Option.some_inj.1 hv ▸ lineText_itoa _⟩
    · exact hmap.pairs key value hv
  · funext key
    rw [startHeaders, strncmpEq_diag hd]
    exact messageHeaders_value hp.valid hh key

theorem Follows.connected_iff (h : Follows st a) :
    sessionWithoutFlags c.input.fd ∈ a.connected ↔
      stompSessionIsConnected st.connected (sessionWithoutFlags c.input.fd) = true :=
  (h.connected _).symm

/-- A refused frame is an event without effect. -/
theorem step_refused (ttl : BitVec 32) (h : Follows st a) (hr : ¬ Accepted st c.input pm) :
    step stompRules a (frameMeaning ttl c pm) = a := by
  have hup := @Follows.connected_iff st c a h
  unfold frameMeaning
  dsimp only
  split
  case h_1 hc =>
    have hmem : sessionWithoutFlags c.input.fd ∈ a.connected := by
      rw [hup]
      simpa [Accepted, hc] using hr
    rw [step, Set.insert_eq_of_mem hmem]
  case h_2 hc =>
    rw [step, if_neg (by simpa [Accepted, hc, hup] using hr)]
  case h_3 hc hi ht =>
    rw [step, if_neg (by simpa [Accepted, hc, hi, ht, hup] using hr)]
  case h_4 hc hi ht =>
    rw [step, if_neg (by simpa [Accepted, hc, hi, ht, hup] using hr)]
  case h_5 topic hc ht =>
    split_ifs with hskip
    · rfl
    · have hw : strchr topic star = none := strchr_eq_none.2 fun hs => hskip (.inl hs)
      rw [step, if_neg (by simpa [Accepted, hc, ht, hup, hw] using hr)]
  case h_6 => rfl

theorem pubsubRemoveClient_eq (h : Follows st a) (session : Fd) :
    pubsubRemoveClient st.topics session = (step stompRules a (.purge session session)).subs := by
  rw [h.topics, pubsubRemoveClient, step]
  refine List.filter_congr fun sub _ => ?_
  have howner : stompRules.owner sub = sub.sessionId := rfl
  by_cases he : sub.sessionId = session <;> simp [howner, he]

theorem Follows.hangUp (h : Follows st a) (number session : Fd) :
    Follows { st with
      topics := pubsubRemoveClient st.topics session
      connected := stompSessionSetConnected st.connected number 0 } (step stompRules a (.purge number session)) where
  connected n := by
    rw [stompSessionIsConnected_set]
    by_cases hn : n = number <;> simp [step, hn, h.connected]
  topics := pubsubRemoveClient_eq h session
  lines := fun sub hs => h.lines sub (mem_pubsubRemoveClient.1 hs).1
  stale := h.stale
  counter := h.counter
  messageId := h.messageId
  messages := h.messages

theorem Follows.connect (h : Follows st a) (number : Fd) :
    Follows { st with connected := stompSessionSetConnected st.connected number 1 } (step stompRules a (.connect number)) where
  connected n := by
    rw [stompSessionIsConnected_set]
    by_cases hn : n = number <;> simp [step, hn, h.connected]
  topics := h.topics
  lines := h.lines
  stale := h.stale
  counter := h.counter
  messageId := h.messageId
  messages := h.messages

theorem Follows.subscribe (h : Follows st a) {number fd : Fd} {id : CStr} (hup : number ∈ a.connected)
    (ht : LineText topic) (hi : LineText id) :
    Follows { st with topics := pubsubSubscribe st.topics topic fd id }
      (step stompRules a (.subscribe number ⟨fd, topic, id⟩)) := by
  rw [step, if_pos hup]
  refine ⟨h.connected, ?_, fun sub hs => ?_, h.stale, h.counter, h.messageId, h.messages⟩
  · rw [pubsubSubscribe, h.topics]
  · rcases List.mem_append.1 hs with hs | hs
    · exact h.lines sub hs
    · rw [List.mem_singleton.1 hs]
      exact ⟨hi, ht⟩

theorem Follows.unsubscribe (h : Follows st a) {number fd : Fd} {id : CStr} (hup : number ∈ a.connected) :
    Follows { st with topics := pubsubUnsubscribe st.topics topic fd id }
      (step stompRules a (.unsubscribe number ⟨fd, topic, id⟩)) := by
  rw [step, if_pos hup]
  refine ⟨h.connected, ?_, fun sub hs => h.lines sub (mem_of_mem_pubsubUnsubscribe hs), h.stale, h.counter, h.messageId,
    h.messages⟩
  rw [pubsubUnsubscribe, h.topics]
  refine List.filter_congr fun sub _ => ?_
  obtain ⟨sessionId, topicPattern, id'⟩ := sub
  rw [Bool.eq_iff_iff]
  simp [or_assoc]

/-- A fresh SEND is delivered to the recipients of the abstract broker. -/
theorem Follows.publish (h : Follows st a) {number : Fd} (hup : number ∈ a.connected) (hp : Parsed pm)
    (ht : pm.topic = some topic) (hw : star ∉ topic) (he : expired c.env.now c.input.ts cfg.ttl = false)
    {consumption : Consumption} (hd : distributeMessages cfg c.env st c.input pm = some (st', consumption)) :
    Follows st' (step stompRules a (.publish number pm)) := by
  have hrec := recipients_eq h ht hw
  have hwant : wanting stompRules a.subs pm = pubsubFindMatching st.topics topic := by
    rw [← h.topics, wanting_eq ht hw]
  have hex : stompRules.Exclusive pm ↔ topic.head? = some 35 := by simp [stompRules, ht]
  rw [step, if_pos hup, hrec, hwant]
  by_cases hm : pubsubFindMatching st.topics topic = []
  · rw [distributeMessages_no_match ht hm, Option.some_inj, Prod.mk.injEq] at hd
    obtain ⟨rfl, -⟩ := hd
    simp only [hm, recipients_of_no_match hm, ne_eq, not_true_eq_false, and_false, if_false, List.map_nil, List.append_nil]
    exact h
  · rw [distributeMessages_match he ht hm] at hd
    obtain ⟨body, hb, hd⟩ := Option.bind_eq_some_iff.1 hd
    obtain ⟨headers, hh, hd⟩ := Option.map_eq_some_iff.1 hd
    rw [Prod.mk.injEq] at hd
    obtain ⟨rfl, -⟩ := hd
    have hshows := shows_delivery (c := c) hp ht hb h.lines hh h.messageId
    have hmessages : messagesOf (delivery c.env st topic body headers).messagesOut =
        (delivery c.env st topic body headers).messagesOut := by
      refine List.filter_eq_self.2 fun frame hf => ?_
      obtain ⟨sub, -, hmsg, -⟩ := exists_recipient_of_mem (delivery_messagesOut c.env st topic body headers) hf
      exact hmsg
    refine ⟨h.connected, h.topics, h.lines, h.stale, ?_, ?_, ?_⟩
    · simp only [hex, hm, ne_eq, not_false_eq_true, and_true]
      split_ifs
      · rw [h.counter, BitVec.ofNat_add]
        rfl
      · exact h.counter
    · rw [delivery, foldl_deliver_messageId, List.length_append, List.length_map, BitVec.ofNat_add, ← h.messageId]
    · rw [messagesOf, List.filter_append, ← messagesOf, ← messagesOf, hmessages, List.zipIdx_append, zero_add]
      exact List.rel_append h.messages hshows

theorem Follows.command (h : Follows st a) (hp : Parsed pm) {resp : Option MessageWithFrameLen}
    (hc : processCommand cfg c.env st c.input pm = some (st', resp)) :
    Follows st' (step stompRules a (frameMeaning cfg.ttl c pm)) := by
  have hup := @Follows.connected_iff st c a h
  have hswitch := processCommand_switch cfg c.env st c.input pm
  rw [hc] at hswitch
  generalize hr : some (st', resp) = result at hswitch
  cases hswitch with
  | refuse reason hno =>
    simp only [Option.some.injEq, Prod.mk.injEq] at hr
    rw [step_refused cfg.ttl h hno, hr.1]
    exact h
  | connect hcmd hn =>
    simp only [Option.some.injEq, Prod.mk.injEq] at hr
    rw [hr.1, frameMeaning, hcmd]
    exact h.connect _
  | disconnect hcmd hn =>
    simp only [Option.some.injEq, Prod.mk.injEq] at hr
    rw [hr.1, frameMeaning, hcmd]
    dsimp only
    rw [step, if_pos (hup.2 hn)]
    exact h.hangUp _ _
  | @subscribe id topic hcmd hi ht hn =>
    rw [distributeMessagesFromStaleQ_nil (by exact h.stale)] at hr
    simp only [Option.map_some, Option.some.injEq, Prod.mk.injEq] at hr
    rw [hr.1, frameMeaning, hcmd, hi, ht]
    exact h.subscribe (hup.2 hn) (hp.topic topic ht) (hp.id id hi)
  | @unsubscribe id topic hcmd hi ht hn =>
    simp only [Option.some.injEq, Prod.mk.injEq] at hr
    rw [hr.1, frameMeaning, hcmd, hi, ht]
    exact h.unsubscribe (hup.2 hn)
  | @send topic hcmd ht hn hw =>
    obtain ⟨⟨st₁, consumption⟩, hd, he⟩ := Option.map_eq_some_iff.1 hr.symm
    simp only [Prod.mk.injEq] at he
    obtain ⟨rfl, -⟩ := he
    have hstar : star ∉ topic := strchr_eq_none.1 hw
    rw [frameMeaning, hcmd, ht]
    dsimp only
    cases hexp : expired c.env.now c.input.ts cfg.ttl with
    | true =>
      rw [distributeMessages_expired hexp, Option.some_inj, Prod.mk.injEq] at hd
      obtain ⟨rfl, -⟩ := hd
      rw [if_pos (.inr rfl)]
      exact h
    | false =>
      rw [if_neg (by simpa using hstar)]
      exact h.publish (hup.2 hn) hp ht hstar hexp hd
  | diagnostic hcmd hb =>
    simp only [Option.some.injEq, Prod.mk.injEq] at hr
    rw [hr.1, frameMeaning, hcmd]
    exact h

/-- One round of the reader is one event of the abstract broker. -/
theorem Follows.round (h : Follows st a) (hs : readerThread createAcceptKey cfg st c = some st') :
    Follows st' (step stompRules a (meaning cfg.ttl c)) := by
  unfold readerThread at hs
  split_ifs at hs
  rw [meaning]
  cases hreq : isHttpRequest c.input.content with
  | true =>
    cases hf : wsInputFilterHandshake createAcceptKey c.input with
    | none =>
      rw [wsInputFilterHandshake, if_pos hreq] at hf
      split at hf <;> cases hf
    | some frames =>
      simp only [hf, Option.some.injEq] at hs
      rw [if_pos rfl, ← hs]
      exact h.reply fun frame hm => (wsInputFilterHandshake_reply hf frame hm).1
  | false =>
    have hf : wsInputFilterHandshake createAcceptKey c.input = none := by
      rw [wsInputFilterHandshake, hreq]
      rfl
    simp only [hf] at hs
    rw [if_neg (by decide)]
    obtain ⟨hpurge, rfl⟩ | ⟨pm, st₁, resp, hframe, hpm, hc, rfl⟩ := stompStep_cases hs
    · rw [if_pos hpurge]
      exact h.hangUp _ _
    · rw [hframe, if_neg (by decide), hpm]
      refine (h.command (parsed_of_parseMessage hpm) hc).reply (closingFrame_reply fun frame hresp => ?_)
      subst hresp
      exact (processCommand_outcome hc).reply.1

end Steps

section Runs
variable {createAcceptKey : CStr → CStr} {cfg : Config} {st : StompState} {calls : List Call}

/-- Every run of the reader is a run of the abstract broker: the same sessions, and the MESSAGE frames show its
deliveries one for one. -/
theorem reader_refines (h : Run (Steps (readerThread createAcceptKey cfg)) stompStart calls st) :
    Follows st (after stompRules (calls.map (meaning cfg.ttl))) := by
  refine h.history (I := fun calls st => Follows st (after stompRules (calls.map (meaning cfg.ttl)))) follows_start ?_
  intro es s e t hfollows hstep
  rw [List.map_append, List.map_singleton, AbstractBroker.after_snoc]
  exact hfollows.round hstep

theorem exists_ownId_run : ∃ st, Run (Steps (readerThread id lateConfig)) stompStart ownIdCalls st ∧
    (messagesOf st.output).length = 2 :=
  exists_run_of_exec (by decide)

theorem reader_refines_ownId : ∃ st, Run (Steps (readerThread id lateConfig)) stompStart ownIdCalls st ∧
    (messagesOf st.output).length = 2 ∧ Follows st (after stompRules (ownIdCalls.map (meaning lateConfig.ttl))) := by
  obtain ⟨st, hrun, htwo⟩ := exists_ownId_run
  exact ⟨st, hrun, htwo, reader_refines hrun⟩

/-- The calls of a run alone tell who is connected, which subscriptions stand, in order, and every MESSAGE frame. -/
theorem told_by_history (h : Run (Steps (readerThread createAcceptKey cfg)) stompStart calls st) :
    (∀ number, stompSessionIsConnected st.connected number = true ↔
      AbstractBroker.Connected (calls.map (meaning cfg.ttl)) number) ∧
    st.topics = AbstractBroker.subscriptions stompRules (calls.map (meaning cfg.ttl)) ∧
    List.Forall₂ Shows (messagesOf st.output)
      (AbstractBroker.deliveries stompRules (calls.map (meaning cfg.ttl))).zipIdx := by
  have hfollows := reader_refines h
  rw [AbstractBroker.after_eq_summary] at hfollows
  exact ⟨hfollows.connected, hfollows.topics, hfollows.messages⟩

theorem told_by_history_ownId : ∃ st, Run (Steps (readerThread id lateConfig)) stompStart ownIdCalls st ∧
    (AbstractBroker.deliveries stompRules (ownIdCalls.map (meaning lateConfig.ttl))).length = 2 ∧
    List.Forall₂ Shows (messagesOf st.output)
      (AbstractBroker.deliveries stompRules (ownIdCalls.map (meaning lateConfig.ttl))).zipIdx := by
  obtain ⟨st, hrun, htwo⟩ := exists_ownId_run
  obtain ⟨-, -, hmessages⟩ := told_by_history hrun
  have hlen := hmessages.length_eq
  rw [htwo, List.length_zipIdx] at hlen
  exact ⟨st, hrun, hlen.symm, hmessages⟩

end Runs

end StompBroker.BrokerHistory
