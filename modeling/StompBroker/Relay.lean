import StompBroker.DeliverySet
import StompBroker.FrameText

/-! What a receiver reads: the text of a relayed frame, parsed again, gives the headers of
the message under the stamps of the delivery, and its body. -/
namespace StompBroker.Relay
open CString AssociativeArray SessionStorage StompSession Message StompParser PubSub Distribute Stomp
open HeaderMap StompRun DistributeContract DeliverySet TransitionSystem FrameText

def headerLine (p : CStr × CStr) : CStr := p.1 ++ colon :: p.2

def headerText (pairs : List (CStr × CStr)) : CStr := pairs.flatMap fun p => headerLine p ++ [nl]

theorem aaGetStrBuf_some (b : CStr) (t : AaItem) :
    aaGetStrBuf (some b) t = some (b ++ (preorder t).flatMap fun p => nl :: headerLine p) := by
  induction t generalizing b with
  | nil => simp [aaGetStrBuf, preorder]
  | node h k v l r ihl ihr =>
    simp only [aaGetStrBuf, ihl, ihr, preorder, List.flatMap_cons, List.flatMap_append]
    simp [headerLine]

theorem line_shift (pairs : List (CStr × CStr)) (tail : CStr) :
    (pairs.flatMap fun p => nl :: headerLine p) ++ nl :: tail = nl :: (headerText pairs ++ tail) := by
  induction pairs with
  | nil => rfl
  | cons p pairs ih => simp only [List.flatMap_cons, List.append_assoc, List.cons_append, ih, headerText,
      List.nil_append]

theorem frame_text {headers : AaItem} (h : headers ≠ .nil) (body : CStr) :
    aaCreateStrRepresentation headers ++ lit "\n\n" ++ body = headerText (preorder headers) ++ nl :: body := by
  cases headers with
  | nil => exact absurd rfl h
  | node hh k v l r =>
    have hroot : aaCreateStrRepresentation (.node hh k v l r) =
        headerLine (k, v) ++ (preorder l ++ preorder r).flatMap fun p => nl :: headerLine p := by
      simp [aaCreateStrRepresentation, aaGetStrBuf, aaGetStrBuf_some, headerLine, List.flatMap_append]
    have hend : lit "\n\n" ++ body = nl :: nl :: body := rfl
    rw [hroot, List.append_assoc, List.append_assoc, hend, line_shift, preorder]
    simp [headerText]

theorem headerBlock_headerText {pairs : List (CStr × CStr)} (h : ∀ p ∈ pairs, KeyText p.1 ∧ LineText p.2)
    (body : CStr) : headerBlock ((headerText pairs ++ nl :: body).splitOn nl) = (pairs, some body) := by
  induction pairs with
  | nil => exact headerBlock_blank .lf body
  | cons p pairs ih =>
    obtain ⟨hk, hv⟩ := h p List.mem_cons_self
    have hcons : headerText (p :: pairs) ++ nl :: body =
        p.1 ++ colon :: p.2 ++ Eol.lf.text ++ (headerText pairs ++ nl :: body) := by
      simp [headerText, headerLine, Eol.text, Eol.mark]
    rw [hcons, headerBlock_pair hk hv, ih fun q hq => h q (List.mem_cons_of_mem p hq)]

def LinePairs (headers : AaItem) : Prop := ∀ key value, aaValue key headers = some value → KeyText key ∧ LineText value

theorem LinePairs.preorder {headers : AaItem} (hl : LinePairs headers) (hv : Valid headers) :
    ∀ p ∈ preorder headers, KeyText p.1 ∧ LineText p.2 := by
  intro p hp
  refine hl p.1 p.2 ?_
  rw [aaValue_eq_find _ hv.sorted, SortedAssoc.find_eq_some_iff (SortedAssoc.nodup_of_sorted hv.sorted)]
  exact (preorder_perm headers).subset hp

/-- Serialising and parsing gives the same map and the same body. -/
theorem parseHeaders_frame (past : List UInt8) {pm : ParsedMessage} (hn : pm.headers = .nil) {headers : AaItem}
    (hv : Valid headers) (hne : headers ≠ .nil) (hl : LinePairs headers) (body : CStr) :
    ∃ pm', parseHeaders past pm (aaCreateStrRepresentation headers ++ lit "\n\n" ++ body) = some (pm', some body) ∧
      ∀ key, aaValue key pm'.headers = aaValue key headers := by
  have hblock := headerBlock_headerText (hl.preorder hv) body
  refine ⟨putHeaders pm (preorder headers), ?_, ?_⟩
  · rw [frame_text hne, parseHeaders, parseHeadersLoop_text past _ (Nat.lt_succ_self _), hblock]
    simp
  · intro key
    rw [putHeaders_headers, hn, aaValue_putAll valid_nil, find_preorder_reverse hv]
    exact Option.or_none

structure Parsed (pm : ParsedMessage) : Prop where
  valid : Valid pm.headers
  pairs : LinePairs pm.headers
  topic : ∀ t, pm.topic = some t → LineText t
  id : ∀ i, pm.id = some i → LineText i

theorem linePairs_aaPut {headers : AaItem} (hv : Valid headers) (hl : LinePairs headers) {key value : CStr}
    (hk : KeyText key) (hval : LineText value) : LinePairs (aaPut headers key value) := by
  intro k v h
  rw [aaValue_aaPut hv.sorted] at h
  split_ifs at h with he
  · obtain rfl := Option.some_inj.1 h
    exact ⟨he ▸ hk, hval⟩
  · exact hl k v h

theorem Parsed.putHeader {pm : ParsedMessage} (h : Parsed pm) {key value : CStr} (hk : KeyText key)
    (hv : LineText value) : Parsed (putHeader pm key value) := by
  obtain ⟨htopic, hid⟩ := putHeader_fields pm key value
  refine ⟨?_, ?_, fun t ht => ?_, fun i hi => ?_⟩
  · rw [putHeader_headers]
    exact h.valid.put key value
  · rw [putHeader_headers]
    exact linePairs_aaPut h.valid h.pairs hk hv
  · rcases htopic with he | he
    · exact h.topic t (he ▸ ht)
    · rw [he, Option.some_inj] at ht
      exact ht ▸ hv
  · rcases hid with he | he
    · exact h.id i (he ▸ hi)
    · rw [he, Option.some_inj] at hi
      exact hi ▸ hv

theorem parsed_of_parseMessage {past : List UInt8} {m : MessageWithTimestamp} {pm : ParsedMessage}
    (h : parseMessage past m = some pm) : Parsed pm :=
  parseMessage_invariant (fun _ _ _ hk hv hp => hp.putHeader hk hv)
    (fun _ _ hp => ⟨hp.valid, hp.pairs, hp.topic, hp.id⟩) ⟨valid_nil, nofun, nofun, nofun⟩ h

/-- Ids and patterns of the subscription list come from parsed headers. -/
def LineTopics (topics : Topics) : Prop := ∀ sub ∈ topics, LineText sub.id ∧ LineText sub.topicPattern

theorem lineTopics_switchSessions {topics : Topics} {connected : SessionConnected} {fd : Fd} {pm : ParsedMessage}
    (hp : Parsed pm) (h : LineTopics topics) : LineTopics (switchSessions topics connected fd pm).1 := by
  unfold switchSessions
  dsimp only
  split
  · exact h
  · exact fun sub hs => h sub (mem_pubsubRemoveClient.1 hs).1
  · rename_i hid htopic
    intro sub hs
    rcases List.mem_append.1 hs with hs | hs
    · exact h sub hs
    · rw [List.mem_singleton.1 hs]
      exact ⟨hp.id _ hid, hp.topic _ htopic⟩
  · exact fun sub hs => h sub (mem_of_mem_pubsubUnsubscribe hs)
  · exact h

theorem lineTopics_step {cfg : Config} {st st' : StompState} {c : Call} (h : LineTopics st.topics)
    (hs : stompStep cfg st c = some st') : LineTopics st'.topics := by
  obtain ⟨-, rfl⟩ | ⟨pm, st₁, resp, -, hpm, hc, rfl⟩ := stompStep_cases hs
  · exact fun sub hs => h sub (mem_pubsubRemoveClient.1 hs).1
  · have htopics := congrArg Prod.fst (processCommand_sessions hc)
    have hl : LineTopics (switchSessions st.topics st.connected c.input.fd pm).1 :=
      lineTopics_switchSessions (parsed_of_parseMessage hpm) h
    rw [← htopics] at hl
    exact hl

theorem lineTopics_of_run {cfg : Config} {st : StompState} {calls : List Call}
    (h : Runs cfg stompStart calls st) : LineTopics st.topics :=
  h.invariant (I := fun st => LineTopics st.topics) nofun fun _ _ _ hl hs => lineTopics_step hl hs

theorem lineText_decimal (n : ℕ) : LineText (decimal n) :=
  ⟨fun h => absurd (isDigit_of_mem_decimal h) (by decide), fun h => absurd (isDigit_of_mem_decimal h) (by decide)⟩

theorem lineText_decimalInt (z : ℤ) : LineText (decimalInt z) := by
  unfold decimalInt
  split_ifs
  · obtain ⟨hn, hc⟩ := lineText_decimal z.natAbs
    have hminus : LineText (lit "-") := by decide
    exact ⟨by simp [hn, hminus.1], by simp [hc, hminus.2]⟩
  · exact lineText_decimal _

theorem lineText_itoa (num : BitVec 32) : LineText (itoa num) := lineText_decimalInt num.toInt

/-- The headers of a message with the two that describe its body. -/
def sentHeaders (pm : ParsedMessage) (body key : CStr) : Option CStr :=
  if key = lit "content-length" then some (decimal body.length)
  else if key = lit "content-type" then some (lit "text/plain")
  else aaValue key pm.headers

theorem messageHeaders_value {pm : ParsedMessage} {body : CStr} {headers : AaItem} (hv : Valid pm.headers)
    (h : messageHeaders pm body = some headers) (key : CStr) : aaValue key headers = sentHeaders pm body key := by
  obtain ⟨merged, hm, rfl⟩ := Option.map_eq_some_iff.1 h
  have hmerged := aaValue_aaMerge valid_nil hv hm
  have hvm : Valid merged := by
    rw [← (aaMerge_eq_some.1 hm).2, aaMergeItems_eq_putAll]
    exact valid_nil.putAll _
  rw [aaValue_aaPut (hvm.put _ _).sorted, aaValue_aaPut hvm.sorted, hmerged key, sentHeaders]
  simp [aaValue, aaGet]

theorem linePairs_stamped {pm : ParsedMessage} (hp : Parsed pm) {t id body : CStr} (ht : LineText t) (hid : LineText id)
    (messageId : BitVec 32) {key value : CStr} (h : stamped (sentHeaders pm body) t id messageId key = some value) :
    KeyText key ∧ LineText value := by
  unfold stamped sentHeaders at h
  split_ifs at h with h1 h2 h3 h4 h5
  · exact ⟨h1 ▸ by decide, Option.some_inj.1 h ▸ hid⟩
  · exact ⟨h2 ▸ by decide, Option.some_inj.1 h ▸ ht⟩
  · exact ⟨h3 ▸ by decide, Option.some_inj.1 h ▸ lineText_itoa messageId⟩
  · exact ⟨h4 ▸ by decide, Option.some_inj.1 h ▸ lineText_decimal body.length⟩
  · exact ⟨h5 ▸ by decide, Option.some_inj.1 h ▸ by decide⟩
  · exact hp.pairs key value h

/-- The text of a frame parses to the given headers and body. -/
def ReadsAs (frame : MessageWithFrameLen) (value : CStr → Option CStr) (body : CStr) : Prop :=
  ∃ text, frame.content = lit "MESSAGE\n" ++ text ∧
    ∀ (past : List UInt8) (pm : ParsedMessage), pm.headers = .nil →
      ∃ pm', parseHeaders past pm text = some (pm', some body) ∧ ∀ key, aaValue key pm'.headers = value key

theorem ReadsAs.unique {frame : MessageWithFrameLen} {value value' : CStr → Option CStr} {body body' : CStr}
    (h : ReadsAs frame value body) (h' : ReadsAs frame value' body') : value = value' := by
  obtain ⟨text, hc, hread⟩ := h
  obtain ⟨text', hc', hread'⟩ := h'
  obtain rfl : text = text' := List.append_cancel_left (hc.symm.trans hc')
  obtain ⟨pm, hp, hv⟩ := hread [] ⟨.unknown, .nil, none, none, none, none, 0⟩ rfl
  obtain ⟨pm', hp', hv'⟩ := hread' [] ⟨.unknown, .nil, none, none, none, none, 0⟩ rfl
  rw [hp, Option.some_inj, Prod.mk.injEq] at hp'
  funext key
  rw [← hv key, ← hv' key, hp'.1]

theorem Carries.readsAs {frame : MessageWithFrameLen} {fd : Fd} {body : CStr} {value : CStr → Option CStr}
    (h : Carries frame fd body value) (key : CStr) (hsome : value key ≠ none)
    (hl : ∀ k v, value k = some v → KeyText k ∧ LineText v) : ReadsAs frame value body := by
  obtain ⟨headers, hv, rfl, hval⟩ := h
  have hne : headers ≠ .nil := by
    rintro rfl
    exact hsome (hval key).symm
  refine ⟨aaCreateStrRepresentation headers ++ lit "\n\n" ++ body, by simp [messageSendWithHeaders], ?_⟩
  intro past pm hn
  obtain ⟨pm', hparse, hread⟩ := parseHeaders_frame past hn hv hne (fun k v hkv => hl k v (hval k ▸ hkv)) body
  exact ⟨pm', hparse, fun k => (hread k).trans (hval k)⟩

theorem strncmpEq_diag {t : CStr} (h : ¬ lit "DIAG" <+: t) : strncmpEq t (lit "DIAG") 4 = false := by
  rw [strncmpEq, beq_eq_false_iff_ne]
  intro he
  exact h (List.prefix_iff_eq_take.2 he.symm)

/-- Every frame of a distribution reads as the message under the stamps of its delivery. -/
theorem distributeMessages_readsAs {cfg : Config} {env : Environment} {st st' : StompState} {calls : List Call}
    {input : MessageWithTimestamp} {pm : ParsedMessage} {t body : CStr} {c : Consumption}
    (hr : Runs cfg stompStart calls st) (hpm : parseMessage env.past input = some pm) (ht : pm.topic = some t)
    (hb : pm.messageBody = some body) (hd : ¬ lit "DIAG" <+: t)
    (h : distributeMessages cfg env st input pm = some (st', c)) {j : ℕ} {frame : MessageWithFrameLen}
    {sub : Subscription} (hf : (st'.output.drop st.output.length)[j]? = some frame)
    (hs : (recipients st t)[j]? = some sub) :
    frame.fd = sub.sessionId ∧
      ReadsAs frame (stamped (sentHeaders pm body) t sub.id (st.messageId + BitVec.ofNat 32 j)) body := by
  have hsub : sub ∈ pubsubFindMatching st.topics t := recipients_subset st t sub (List.mem_of_getElem? hs)
  have hm : pubsubFindMatching st.topics t ≠ [] := List.ne_nil_of_mem hsub
  have hp := parsed_of_parseMessage hpm
  by_cases he : expired env.now input.ts cfg.ttl = true
  · rw [distributeMessages_expired he, Option.some_inj, Prod.mk.injEq] at h
    simp [← h.1] at hf
  rw [distributeMessages_match (by simpa using he) ht hm, hb, Option.bind_some] at h
  obtain ⟨headers, hh, h⟩ := Option.map_eq_some_iff.1 h
  rw [Prod.mk.injEq] at h
  rw [← h.1, List.drop_left] at hf
  have hstart : (fun key => aaValue key (startHeaders env st t body headers)) = sentHeaders pm body := by
    funext key
    rw [startHeaders, strncmpEq_diag hd]
    exact messageHeaders_value hp.valid hh key
  have hc := (delivery_spec env st t body (valid_messageHeaders hh)).2 j frame sub hf hs
  rw [hstart] at hc
  have hid := (lineTopics_of_run hr sub (mem_of_mem_pubsubFindMatching hsub)).1
  refine ⟨?_, Carries.readsAs hc (lit "subscription") (by simp [stamped]) fun k v hkv =>
    linePairs_stamped hp (hp.topic t ht) hid _ hkv⟩
  obtain ⟨-, -, rfl, -⟩ := hc
  rfl

theorem distributeMessages_count {cfg : Config} {env : Environment} (st : StompState)
    {input : MessageWithTimestamp} {pm : ParsedMessage} {t body : CStr}
    (hpm : parseMessage env.past input = some pm) (ht : pm.topic = some t) (hb : pm.messageBody = some body)
    (he : expired env.now input.ts cfg.ttl = false) :
    ∃ st' frames, distributeMessages cfg env st input pm = some (st', .consumed) ∧
      st'.output = st.output ++ frames ∧ frames.length = (recipients st t).length := by
  obtain ⟨headers, hh⟩ := Option.isSome_iff_exists.1 (messageHeaders_isSome hpm ht body)
  by_cases hm : pubsubFindMatching st.topics t = []
  · exact ⟨st, [], distributeMessages_no_match ht hm, by simp, by simp [recipients_of_no_match hm]⟩
  · rw [distributeMessages_match he ht hm, hb]
    simp only [Option.bind_some, hh, Option.map_some]
    exact ⟨_, _, rfl, rfl, (delivery_messagesOut env st t body headers).length_eq⟩

/-- Relayed messages parse back to what was sent, whoever else receives them. -/
theorem relayed_parses_back {cfg : Config} {env : Environment} {st : StompState} {calls : List Call}
    {input : MessageWithTimestamp} {pm : ParsedMessage} {t body : CStr} (hr : Runs cfg stompStart calls st)
    (hpm : parseMessage env.past input = some pm) (ht : pm.topic = some t) (hb : pm.messageBody = some body)
    (hd : ¬ lit "DIAG" <+: t) (he : expired env.now input.ts cfg.ttl = false) :
    ∃ st' frames, distributeMessages cfg env st input pm = some (st', .consumed) ∧
      st'.output = st.output ++ frames ∧ frames.length = (recipients st t).length ∧
      ∀ (j : ℕ) (frame : MessageWithFrameLen) (sub : Subscription), frames[j]? = some frame →
        (recipients st t)[j]? = some sub →
        frame.fd = sub.sessionId ∧
          ReadsAs frame (stamped (sentHeaders pm body) t sub.id (st.messageId + BitVec.ofNat 32 j)) body := by
  obtain ⟨st', frames, h, hout, hlen⟩ := distributeMessages_count st hpm ht hb he
  refine ⟨st', frames, h, hout, hlen, fun j frame sub hf hs => ?_⟩
  exact distributeMessages_readsAs hr hpm ht hb hd h (by rwa [hout, List.drop_left]) hs

def subscriberCalls : List Call :=
  [⟨quietEnvironment 0, ⟨9, lit "CONNECT\n\n", 0⟩⟩,
    ⟨quietEnvironment 0, ⟨9, lit "SUBSCRIBE\nid:s\ndestination:/topic/*\n\n", 0⟩⟩]

theorem relayed_parses_back_subscriber :
    ∃ st, Runs lateConfig stompStart subscriberCalls st ∧
      ∃ st' frame, distributeMessages lateConfig (quietEnvironment 2000) st lateSend lateParsed =
          some (st', .consumed) ∧ st'.output = st.output ++ [frame] ∧ frame.fd = 9 ∧
        ∃ value, ReadsAs frame value (lit "hello0") ∧ value (lit "destination") = some (lit "/topic/1") ∧
          value (lit "subscription") = some (lit "s") ∧ value (lit "message-id") = some (lit "0") ∧
          value (lit "content-length") = some (lit "6") := by
  obtain ⟨st, hr, htopics, hid⟩ : ∃ st, Runs lateConfig stompStart subscriberCalls st ∧
      st.topics = [⟨9, lit "/topic/*", lit "s"⟩] ∧ st.messageId = 0 := exists_run_of_exec (by decide)
  have hone : recipients st (lit "/topic/1") = [⟨9, lit "/topic/*", lit "s"⟩] := by
    rw [recipients, htopics]
    rfl
  obtain ⟨st', frames, hs, hout, hlen, hreads⟩ := @relayed_parses_back lateConfig (quietEnvironment 2000) st
    subscriberCalls lateSend lateParsed (lit "/topic/1") (lit "hello0") hr lateSend_parsed rfl rfl (by decide)
    (by decide)
  rw [hone] at hlen hreads
  obtain ⟨frame, rfl⟩ := List.length_eq_one_iff.1 hlen
  obtain ⟨hfd, hread⟩ := hreads 0 frame ⟨9, lit "/topic/*", lit "s"⟩ rfl rfl
  rw [hid] at hread
  exact ⟨st, hr, st', frame, hs, hout, hfd, _, hread, by decide, by decide, by decide, by decide⟩

end StompBroker.Relay
