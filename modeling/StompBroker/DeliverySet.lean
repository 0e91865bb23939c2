import StompBroker.HeaderMap
import StompBroker.Replies
import Mathlib.Data.List.TakeWhile

/-! Who receives a message and what the frames say: the rule of the topic matcher, and the
headers that the shared map carries at each delivery. -/
namespace StompBroker.DeliverySet
open CString AssociativeArray SessionStorage StompSession Message StompParser PubSub Distribute Stomp
open HeaderMap DistributeContract

/-- The fixed part of a pattern: everything before its first wildcard. -/
def fixedPart (pattern : CStr) : CStr := pattern.takeWhile (· != star)

/-- The matching rule: the same text, or a wildcard pattern whose fixed part starts the topic. -/
def Matches (topic pattern : CStr) : Prop :=
  (star ∉ pattern ∧ pattern = topic) ∨ (star ∈ pattern ∧ fixedPart pattern <+: topic)

instance (topic pattern : CStr) : Decidable (Matches topic pattern) :=
  inferInstanceAs (Decidable (_ ∨ _))

theorem maskLen_eq (text : CStr) : maskLen text = (fixedPart text).length := by
  induction text with
  | nil => rfl
  | cons b text ih =>
    by_cases hb : b = star
    · subst hb
      simp [maskLen, strchr, fixedPart, List.findIdx?_cons]
    · have hcons : maskLen (b :: text) = maskLen text + 1 := by
        simp only [maskLen, strchr, List.findIdx?_cons, beq_eq_false_iff_ne.2 hb, List.length_cons]
        cases text.findIdx? (· == star) <;> simp
      rw [hcons, ih]
      simp [fixedPart, hb]

theorem fixedPart_of_not_mem {text : CStr} (h : star ∉ text) : fixedPart text = text := by
  refine List.takeWhile_eq_self_iff.2 fun b hb => ?_
  have hne : b ≠ star := fun he => h (he ▸ hb)
  simpa using hne

theorem take_maskLen (pattern : CStr) : pattern.take (maskLen pattern) = fixedPart pattern := by
  rw [maskLen_eq]
  exact (List.prefix_iff_eq_take.1 (List.takeWhile_prefix _)).symm

theorem topicMatches_iff {topic : CStr} (ht : star ∉ topic) (pattern : CStr) :
    topicMatches topic pattern = true ↔ Matches topic pattern := by
  have hlen : maskLen topic = topic.length := by rw [maskLen_eq, fixedPart_of_not_mem ht]
  by_cases hp : star ∈ pattern
  · have hw : strchr pattern star ≠ none := fun h => strchr_eq_none.1 h hp
    have hrule : Matches topic pattern ↔ topic.take (maskLen pattern) = fixedPart pattern := by
      rw [maskLen_eq, eq_comm, ← List.prefix_iff_eq_take]
      simp [Matches, hp]
    by_cases hshort : topic.length < maskLen pattern
    · have hno : ¬ topic.take (maskLen pattern) = fixedPart pattern := by
        intro h
        have := congrArg List.length h
        rw [List.length_take, ← maskLen_eq] at this
        omega
      simp [topicMatches, hw, hlen, hshort, hrule, hno]
    · simp [topicMatches, hw, hlen, hshort, hrule, strncmpEq, take_maskLen]
  · have hw : strchr pattern star = none := strchr_eq_none.2 hp
    have hrule : Matches topic pattern ↔ pattern = topic := by simp [Matches, hp]
    have hlen' : maskLen pattern = pattern.length := by rw [maskLen_eq, fixedPart_of_not_mem hp]
    by_cases hsame : pattern.length = topic.length
    · have hall : strncmpEq topic pattern topic.length = true ↔ topic = pattern := by
        rw [strncmpEq, List.take_length, ← hsame, List.take_length, beq_iff_eq]
      simp [topicMatches, hw, hlen, hlen', hsame, hrule, hall, eq_comm]
    · have hne : pattern ≠ topic := fun h => hsame (congrArg List.length h)
      simp [topicMatches, hw, hlen, hlen', hsame, hrule, hne]

def stamped (base : CStr → Option CStr) (topic id : CStr) (messageId : BitVec 32) (key : CStr) : Option CStr :=
  if key = lit "subscription" then some id
  else if key = lit "destination" then some topic
  else if key = lit "message-id" then some (itoa messageId)
  else base key

/-- A MESSAGE frame for a descriptor with the given body and header values. -/
def Carries (frame : MessageWithFrameLen) (fd : Fd) (body : CStr) (value : CStr → Option CStr) : Prop :=
  ∃ headers, Valid headers ∧ frame = messageSendWithHeaders fd headers body ∧
    ∀ key, aaValue key headers = value key

theorem stamped_stamped (base : CStr → Option CStr) (t t' id id' : CStr) (m m' : BitVec 32) :
    stamped (stamped base t id m) t' id' m' = stamped base t' id' m' := by
  funext key
  unfold stamped
  split_ifs <;> rfl

theorem deliver_spec (topic body : CStr) (d : Delivery) (hv : Valid d.headers) (fd : Fd) (id : CStr) :
    Valid (deliver topic body d fd id).headers ∧
    (deliver topic body d fd id).messageId = d.messageId + 1 ∧
    (∀ key, aaValue key (deliver topic body d fd id).headers =
      stamped (fun key => aaValue key d.headers) topic id d.messageId key) ∧
    (deliver topic body d fd id).messagesOut =
      d.messagesOut ++ [messageSendWithHeaders fd (deliver topic body d fd id).headers body] := by
  have h1 := hv.put (lit "message-id") (itoa d.messageId)
  have h2 := h1.put (lit "destination") topic
  refine ⟨h2.put (lit "subscription") id, rfl, fun key => ?_, rfl⟩
  simp only [deliver, addNextMessageId, stamped, aaValue_aaPut h2.sorted, aaValue_aaPut h1.sorted,
    aaValue_aaPut hv.sorted]

/-- The deliveries of one message share a header map, yet each frame shows its own stamps
over the headers of the message. -/
theorem foldl_deliver_spec (topic body : CStr) (subs : List Subscription) (d : Delivery)
    (hv : Valid d.headers) :
    ∃ frames, (subs.foldl (fun d sub => deliver topic body d sub.sessionId sub.id) d).messagesOut =
        d.messagesOut ++ frames ∧ frames.length = subs.length ∧
      ∀ (j : ℕ) (frame : MessageWithFrameLen) (sub : Subscription), frames[j]? = some frame → subs[j]? = some sub →
        Carries frame sub.sessionId body
          (stamped (fun key => aaValue key d.headers) topic sub.id (d.messageId + BitVec.ofNat 32 j)) := by
  induction subs generalizing d with
  | nil => exact ⟨[], by simp⟩
  | cons sub subs ih =>
    obtain ⟨hv', hid, hval, hout⟩ := deliver_spec topic body d hv sub.sessionId sub.id
    obtain ⟨frames, hframes, hlen, hall⟩ := ih (deliver topic body d sub.sessionId sub.id) hv'
    refine ⟨_ :: frames, by rw [List.foldl_cons, hframes, hout, List.append_assoc, List.singleton_append],
      by simp [hlen], fun j frame sub' hf hs => ?_⟩
    cases j with
    | zero =>
      simp only [List.getElem?_cons_zero, Option.some.injEq] at hf hs
      subst hf hs
      exact ⟨_, hv', rfl, fun key => by simp [hval key]⟩
    | succ j =>
      simp only [List.getElem?_cons_succ] at hf hs
      obtain ⟨headers, hvh, hfr, hvals⟩ := hall j frame sub' hf hs
      refine ⟨headers, hvh, hfr, fun key => ?_⟩
      rw [hvals key, hid, funext hval, stamped_stamped, succ_messageId]

theorem valid_messageHeaders {pm : ParsedMessage} {body : CStr} {headers : AaItem}
    (h : messageHeaders pm body = some headers) : Valid headers := by
  obtain ⟨merged, hm, rfl⟩ := Option.map_eq_some_iff.1 h
  rw [← (aaMerge_eq_some.1 hm).2, aaMergeItems_eq_putAll]
  exact ((valid_nil.putAll _).put _ _).put _ _

/-- The header map that the deliveries of a message start from. -/
def startHeaders (env : Environment) (st : StompState) (topic body : CStr) (headers : AaItem) : AaItem :=
  if strncmpEq topic (lit "DIAG") 4 then createDiagnosticHeaders env st headers body else headers

/-- The diagnostics put numbers under plain keys. -/
theorem startHeaders_induction {P : AaItem → Prop}
    (hput : ∀ {headers : AaItem} {key : CStr}, KeyText key → ∀ z, P headers → P (aaPut headers key (decimalInt z)))
    {env : Environment} {st : StompState} {topic body : CStr} {headers : AaItem} (h : P headers) :
    P (startHeaders env st topic body headers) := by
  have hnat : ∀ {headers : AaItem} {key : CStr}, KeyText key → ∀ n, P headers → P (aaPut headers key (decimal n)) :=
    fun hk n h => decimalInt_natCast n ▸ hput hk n h
  refine iteInduction (fun _ => ?_) fun _ => h
  unfold createDiagnosticHeaders
  refine iteInduction (fun _ => hput (by decide) _ h) fun _ => ?_
  refine iteInduction (fun _ => hput (by decide) _ h) fun _ => ?_
  refine iteInduction (fun _ => hnat (by decide) _ h) fun _ => ?_
  refine iteInduction (fun _ => hnat (by decide) _ h) fun _ => ?_
  refine iteInduction (fun _ => ?_) fun _ => ?_
  · exact hnat (by decide) _ (hnat (by decide) _ (hput (by decide) _ (hput (by decide) _ h)))
  refine iteInduction (fun _ => ?_) fun _ => ?_
  · exact hnat (by decide) _ (hnat (by decide) _ (hnat (by decide) _ h))
  refine iteInduction (fun _ => ?_) fun _ => h
  exact hnat (by decide) _ (hnat (by decide) _ (hnat (by decide) _ h))

theorem valid_startHeaders {env : Environment} {st : StompState} {topic body : CStr} {headers : AaItem}
    (h : Valid headers) : Valid (startHeaders env st topic body headers) :=
  startHeaders_induction (fun _ z h => h.put _ (decimalInt z)) h

theorem delivery_spec (env : Environment) (st : StompState) (topic body : CStr) {headers : AaItem}
    (hv : Valid headers) :
    (delivery env st topic body headers).messagesOut.length = (recipients st topic).length ∧
    ∀ (j : ℕ) (frame : MessageWithFrameLen) (sub : Subscription),
      (delivery env st topic body headers).messagesOut[j]? = some frame → (recipients st topic)[j]? = some sub →
      Carries frame sub.sessionId body (stamped (fun key => aaValue key (startHeaders env st topic body headers))
        topic sub.id (st.messageId + BitVec.ofNat 32 j)) := by
  obtain ⟨frames, hout, hlen, hall⟩ := foldl_deliver_spec topic body (recipients st topic)
    ⟨startHeaders env st topic body headers, st.messageId, []⟩ (valid_startHeaders hv)
  rw [List.nil_append] at hout
  rw [delivery, ← startHeaders, hout]
  exact ⟨hlen, hall⟩

/-- A frame for a subscription that names the subscription by its id. -/
def Addressed (body : CStr) (frame : MessageWithFrameLen) (sub : Subscription) : Prop :=
  ∃ headers, frame = messageSendWithHeaders sub.sessionId headers body ∧
    aaValue (lit "subscription") headers = some sub.id

theorem Carries.addressed {frame : MessageWithFrameLen} {sub : Subscription} {body topic : CStr}
    {base : CStr → Option CStr} {messageId : BitVec 32}
    (h : Carries frame sub.sessionId body (stamped base topic sub.id messageId)) : Addressed body frame sub := by
  obtain ⟨headers, -, hf, hval⟩ := h
  exact ⟨headers, hf, by rw [hval, stamped, if_pos rfl]⟩

theorem delivery_addressed (env : Environment) (st : StompState) (topic body : CStr) {headers : AaItem}
    (hv : Valid headers) :
    List.Forall₂ (Addressed body) (delivery env st topic body headers).messagesOut (recipients st topic) := by
  obtain ⟨hlen, hall⟩ := delivery_spec env st topic body hv
  refine List.forall₂_iff_get.2 ⟨hlen, fun j hj hj' => ?_⟩
  exact (hall j _ _ (List.getElem?_eq_getElem hj) (List.getElem?_eq_getElem hj')).addressed

/-- The MESSAGE frames that a call has put on the output queue. -/
def newMessages (st st' : StompState) : List MessageWithFrameLen :=
  (st'.output.drop st.output.length).filter fun frame => frame.isMessage

theorem pubsubFindMatching_eq {t : CStr} (hw : star ∉ t) (topics : Topics) :
    pubsubFindMatching topics t = topics.filter fun sub => decide (Matches t sub.topicPattern) := by
  refine List.filter_congr fun sub _ => ?_
  rw [Bool.eq_iff_iff, topicMatches_iff hw, decide_eq_true_iff]

theorem processCommand_send {cfg : Config} {env : Environment} {st : StompState} {input : MessageWithTimestamp}
    {pm : ParsedMessage} {t : CStr} (hc : pm.command = .send) (ht : pm.topic = some t)
    (hn : stompSessionIsConnected st.connected (sessionWithoutFlags input.fd) = true) (hw : star ∉ t) :
    processCommand cfg env st input pm = (distributeMessages cfg env st input pm).map fun p => (p.1, none) := by
  simp [processCommand, hc, ht, hn, strchr_eq_none.2 hw]

theorem newMessages_closed {st st' : StompState} {messages : List MessageWithFrameLen}
    {input : MessageWithTimestamp} {pm : ParsedMessage} (hm : ∀ m ∈ messages, m.isMessage = true)
    (ho : st'.output = st.output ++ (messages ++ closingFrame input pm none)) : newMessages st st' = messages := by
  rw [newMessages, ho, List.drop_left, List.filter_append, List.filter_eq_self.2 hm]
  cases hr : pm.receiptId <;> simp [closingFrame, hr]

theorem recipients_of_no_match {st : StompState} {t : CStr} (h : pubsubFindMatching st.topics t = []) :
    recipients st t = [] := by
  unfold recipients
  split_ifs
  · simp [h, pickNext]
  · exact h

/-- A SEND that is distributed: its MESSAGE frames are the deliveries to the recipients. -/
theorem stompProcess_send {cfg : Config} {env : Environment} {st : StompState} {input : MessageWithTimestamp}
    {pm : ParsedMessage} {t body : CStr} (hp : isPurge input.fd = false)
    (hpm : parseMessage env.past input = some pm) (hc : pm.command = .send) (ht : pm.topic = some t)
    (hb : pm.messageBody = some body)
    (hn : stompSessionIsConnected st.connected (sessionWithoutFlags input.fd) = true) (hw : star ∉ t)
    (he : expired env.now input.ts cfg.ttl = false) :
    ∃ st' headers, stompProcess cfg env st input = some (st', 0) ∧ st'.topics = st.topics ∧
      st'.connected = st.connected ∧ st.output <+: st'.output ∧ messageHeaders pm body = some headers ∧
      newMessages st st' = (delivery env st t body headers).messagesOut ∧
      st'.nextCounter = if t.head? = some 35 ∧ pubsubFindMatching st.topics t ≠ [] then st.nextCounter + 1
        else st.nextCounter := by
  obtain ⟨headers, hh⟩ := Option.isSome_iff_exists.1 (messageHeaders_isSome hpm ht body)
  rw [stompProcess_frame hp hpm, processCommand_send hc ht hn hw]
  by_cases hm : pubsubFindMatching st.topics t = []
  · have hnone : (delivery env st t body headers).messagesOut = [] := by
      rw [delivery, recipients_of_no_match hm]
      rfl
    rw [distributeMessages_no_match ht hm]
    refine ⟨_, headers, rfl, rfl, rfl, List.prefix_append _ _, hh, ?_, by simp [hm]⟩
    rw [hnone]
    exact newMessages_closed (by simp) rfl
  · rw [distributeMessages_match he ht hm, hb]
    simp only [Option.bind_some, hh, Option.map_some]
    refine ⟨_, headers, rfl, rfl, rfl, ?_, rfl, ?_, by simp [hm]⟩
    · rw [List.append_assoc]
      exact List.prefix_append _ _
    · refine newMessages_closed (fun m hm => ?_) (List.append_assoc _ _ _)
      obtain ⟨sub, -, hmsg, -⟩ := exists_recipient_of_mem (delivery_messagesOut env st t body headers) hm
      exact hmsg

theorem recipients_hash {st : StompState} {t : CStr} (hash : t.head? = some 35)
    (h : pubsubFindMatching st.topics t ≠ []) :
    ∃ sub ∈ pubsubFindMatching st.topics t, recipients st t = [sub] := by
  have hlt : st.nextCounter.toNat % (pubsubFindMatching st.topics t).length < _ :=
    Nat.mod_lt _ (List.length_pos_of_ne_nil h)
  exact ⟨_, List.getElem_mem hlt, by simp [recipients, hash, pickNext, List.getElem?_eq_getElem hlt]⟩

/-- Exactly the matching subscriptions receive a message, or one of them for a worker queue. -/
theorem delivery_set_exact {cfg : Config} {env : Environment} {st : StompState} {input : MessageWithTimestamp}
    {pm : ParsedMessage} {t body : CStr} (hp : isPurge input.fd = false)
    (hpm : parseMessage env.past input = some pm) (hc : pm.command = .send) (ht : pm.topic = some t)
    (hb : pm.messageBody = some body)
    (hn : stompSessionIsConnected st.connected (sessionWithoutFlags input.fd) = true) (hw : star ∉ t)
    (he : expired env.now input.ts cfg.ttl = false) :
    ∃ st', stompProcess cfg env st input = some (st', 0) ∧ st'.topics = st.topics ∧ st.output <+: st'.output ∧
      (t.head? ≠ some 35 → List.Forall₂ (Addressed body) (newMessages st st')
        (st.topics.filter fun sub => decide (Matches t sub.topicPattern))) ∧
      (t.head? = some 35 → (∃ sub ∈ st.topics, Matches t sub.topicPattern) →
        ∃ frame, ∃ sub ∈ st.topics, Matches t sub.topicPattern ∧ newMessages st st' = [frame] ∧
          Addressed body frame sub) ∧
      (t.head? = some 35 → (∀ sub ∈ st.topics, ¬ Matches t sub.topicPattern) → newMessages st st' = []) := by
  obtain ⟨st', headers, hs, htopics, -, hpre, hh, hnew, -⟩ := stompProcess_send hp hpm hc ht hb hn hw he
  have hall := delivery_addressed env st t body (valid_messageHeaders hh)
  rw [← hnew] at hall
  have hmatch := pubsubFindMatching_eq hw st.topics
  refine ⟨st', hs, htopics, hpre, fun hash => ?_, fun hash hsome => ?_, fun hash hnone => ?_⟩
  · rw [recipients, if_neg hash, hmatch] at hall
    exact hall
  · have hne : pubsubFindMatching st.topics t ≠ [] := by
      obtain ⟨sub, hsub, hm⟩ := hsome
      rw [hmatch]
      exact List.ne_nil_of_mem (List.mem_filter.2 ⟨hsub, decide_eq_true hm⟩)
    obtain ⟨sub, hsub, hone⟩ := recipients_hash hash hne
    rw [hmatch, List.mem_filter, decide_eq_true_iff] at hsub
    rw [hone] at hall
    obtain ⟨frame, rest, hframe, hrest, hnew⟩ := List.forall₂_cons_right_iff.1 hall
    rw [List.forall₂_nil_right_iff.1 hrest] at hnew
    exact ⟨frame, sub, hsub.1, hsub.2, hnew, hframe⟩
  · have hno : pubsubFindMatching st.topics t = [] := by
      rw [hmatch, List.filter_eq_nil_iff]
      simpa using hnone
    rw [recipients_of_no_match hno] at hall
    exact List.forall₂_nil_right_iff.1 hall

def twoTopicsState : StompState :=
  { connectedState with topics := [⟨8, lit "/other", lit "x"⟩, ⟨9, lit "/topic/*", lit "s"⟩] }

theorem delivery_set_exact_twoTopics :
    ∃ st', stompProcess lateConfig (quietEnvironment 2000) twoTopicsState lateSend = some (st', 0) ∧
      List.Forall₂ (Addressed (lit "hello0")) (newMessages twoTopicsState st') [⟨9, lit "/topic/*", lit "s"⟩] := by
  have hf : twoTopicsState.topics.filter (fun sub => decide (Matches (lit "/topic/1") sub.topicPattern)) =
      [⟨9, lit "/topic/*", lit "s"⟩] := by decide
  obtain ⟨st', hs, -, -, hall, -⟩ := @delivery_set_exact lateConfig (quietEnvironment 2000) twoTopicsState lateSend
    lateParsed (lit "/topic/1") (lit "hello0") (by decide) lateSend_parsed rfl rfl rfl (by decide) (by decide)
    (by decide)
  exact ⟨st', hs, hf ▸ hall (by decide)⟩

end StompBroker.DeliverySet
