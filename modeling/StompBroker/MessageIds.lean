import StompBroker.Relay

/-! Message ids over whole runs. Both ways of delivery take their ids from one counter, so the
MESSAGE frames of a run carry its values one after the other. -/
namespace StompBroker.MessageIds
open CString AssociativeArray SessionStorage StompSession Message StompParser PubSub Distribute Stomp
open HeaderMap StompRun DistributeContract DeliverySet TransitionSystem FrameText Relay

/-- The value of the header in the text of a frame. -/
def messageIdOf (frame : MessageWithFrameLen) : Option CStr := (frameHeaders frame.content).lookup (lit "message-id")

structure LineMap (headers : AaItem) : Prop where
  valid : Valid headers
  pairs : LinePairs headers

theorem LineMap.put {headers : AaItem} (h : LineMap headers) {key value : CStr} (hk : KeyText key) (hv : LineText value) :
    LineMap (aaPut headers key value) :=
  ⟨h.valid.put key value, linePairs_aaPut h.valid h.pairs hk hv⟩

theorem frameHeaders_messageSendWithHeaders {headers : AaItem} (h : LineMap headers) (hne : headers ≠ .nil) (fd : Fd)
    (body : CStr) : frameHeaders (messageSendWithHeaders fd headers body).content = preorder headers := by
  have hcontent : (messageSendWithHeaders fd headers body).content =
      lit "MESSAGE" ++ nl :: (headerText (preorder headers) ++ nl :: body) := by
    rw [← frame_text hne, messageSendWithHeaders, messageCreateWithFrameLen_content]
    simp [show lit "MESSAGE\n" = lit "MESSAGE" ++ [nl] by decide]
  rw [frameHeaders, rows, hcontent, splitOn_row (by decide), List.tail_cons, headerBlock_headerText (h.pairs.preorder h.valid)]

theorem messageIdOf_messageSendWithHeaders {headers : AaItem} (h : LineMap headers) (hne : headers ≠ .nil) (fd : Fd)
    (body : CStr) : messageIdOf (messageSendWithHeaders fd headers body) = aaValue (lit "message-id") headers := by
  rw [messageIdOf, frameHeaders_messageSendWithHeaders h hne, ← find_eq_lookup, aaValue_eq_find _ h.valid.sorted]
  refine (SortedAssoc.find_perm (preorder_perm headers).symm ?_).symm
  exact SortedAssoc.nodup_of_sorted h.valid.sorted

/-- MESSAGE frames that carry the values of the counter from one to another. -/
inductive Numbered : BitVec 32 → List MessageWithFrameLen → BitVec 32 → Prop
  | nil (m : BitVec 32) : Numbered m [] m
  | cons {m m' : BitVec 32} {frame : MessageWithFrameLen} {frames : List MessageWithFrameLen}
      (isMessage : frame.isMessage = true) (id : messageIdOf frame = some (itoa m)) (rest : Numbered (m + 1) frames m') :
      Numbered m (frame :: frames) m'

section Numbering
variable {m m' m'' : BitVec 32} {frames more : List MessageWithFrameLen} {frame : MessageWithFrameLen} {i : ℕ}

theorem Numbered.append (h : Numbered m frames m') (g : Numbered m' more m'') : Numbered m (frames ++ more) m'' := by
  induction h with
  | nil => exact g
  | cons isMessage id _ ih => exact .cons isMessage id (ih g)

theorem Numbered.isMessage (h : Numbered m frames m') : ∀ frame ∈ frames, frame.isMessage = true := by
  induction h with
  | nil => simp
  | cons isMessage _ _ ih => exact List.forall_mem_cons.2 ⟨isMessage, ih⟩

theorem Numbered.messageIdOf_getElem (h : Numbered m frames m') (hi : frames[i]? = some frame) :
    messageIdOf frame = some (itoa (m + BitVec.ofNat 32 i)) := by
  induction h generalizing i with
  | nil => simp at hi
  | @cons m m' first frames isMessage id rest ih =>
    cases i with
    | zero =>
      obtain rfl : first = frame := by simpa using hi
      simpa using id
    | succ i =>
      rw [ih (by simpa using hi), succ_messageId]

end Numbering

theorem itoa_injective : Function.Injective itoa := fun _ _ h => BitVec.toInt_inj.1 (decimalInt_injective h)

/-- The counter shows different texts for two values less than a turn apart. -/
theorem itoa_offset_ne (m : BitVec 32) {i j : ℕ} (hij : i < j) (hnear : j - i < 2 ^ 32) :
    itoa (m + BitVec.ofNat 32 i) ≠ itoa (m + BitVec.ofNat 32 j) := by
  intro h
  have hadd := itoa_injective h
  rw [BitVec.add_right_inj] at hadd
  have hnat := congrArg BitVec.toNat hadd
  simp only [BitVec.toNat_ofNat] at hnat
  omega

section Deliveries
variable {topic body : CStr}

theorem lineMap_messageHeaders {pm : ParsedMessage} (hp : Parsed pm) {headers : AaItem}
    (h : messageHeaders pm body = some headers) : LineMap headers := by
  refine ⟨valid_messageHeaders h, fun key value hv => ?_⟩
  rw [messageHeaders_value hp.valid h, sentHeaders] at hv
  split_ifs at hv with h1 h2
  · exact ⟨h1 ▸ by decide, Option.some_inj.1 hv ▸ lineText_decimal body.length⟩
  · exact ⟨h2 ▸ by decide, Option.some_inj.1 hv ▸ by decide⟩
  · exact hp.pairs key value hv

theorem lineMap_startHeaders (env : Environment) (st : StompState) {headers : AaItem} (h : LineMap headers) :
    LineMap (startHeaders env st topic body headers) :=
  startHeaders_induction (fun hk z h => h.put hk (lineText_decimalInt z)) h

theorem deliver_numbered {d : Delivery} (h : LineMap d.headers) (ht : LineText topic) (sessionId : Fd) {id : CStr}
    (hid : LineText id) :
    LineMap (deliver topic body d sessionId id).headers ∧ ∃ frame,
      (deliver topic body d sessionId id).messagesOut = d.messagesOut ++ [frame] ∧
      Numbered d.messageId [frame] (deliver topic body d sessionId id).messageId := by
  obtain ⟨-, hnext, hvalue, hout⟩ := deliver_spec topic body d h.valid sessionId id
  have hmap : LineMap (deliver topic body d sessionId id).headers :=
    ((h.put (by decide) (lineText_itoa d.messageId)).put (by decide) ht).put (by decide) hid
  have hne : (deliver topic body d sessionId id).headers ≠ .nil := aaPut_ne_nil _ _ _
  refine ⟨hmap, _, hout, .cons (messageSendWithHeaders_isMessage _ _ _) ?_ (hnext ▸ .nil _)⟩
  rw [messageIdOf_messageSendWithHeaders hmap hne, hvalue]
  rfl

theorem foldl_deliver_numbered {subs : List Subscription} {d : Delivery} (h : LineMap d.headers) (ht : LineText topic)
    (hsubs : ∀ sub ∈ subs, LineText sub.id) :
    ∃ frames, (subs.foldl (fun d sub => deliver topic body d sub.sessionId sub.id) d).messagesOut = d.messagesOut ++ frames ∧
      Numbered d.messageId frames (subs.foldl (fun d sub => deliver topic body d sub.sessionId sub.id) d).messageId := by
  induction subs generalizing d with
  | nil => exact ⟨[], by simp, .nil _⟩
  | cons sub subs ih =>
    obtain ⟨hmap, frame, hframe, hone⟩ :=
      @deliver_numbered topic body d h ht sub.sessionId sub.id (hsubs sub List.mem_cons_self)
    obtain ⟨frames, hframes, hrest⟩ := ih hmap fun s hs => hsubs s (List.mem_cons_of_mem sub hs)
    refine ⟨frame :: frames, ?_, hone.append hrest⟩
    rw [List.foldl_cons, hframes, hframe, List.append_assoc, List.singleton_append]

/-- A SEND that is distributed numbers its frames. -/
theorem distributeMessages_numbered {cfg : Config} {env : Environment} {st st' : StompState} {input : MessageWithTimestamp}
    {pm : ParsedMessage} {c : Consumption} (hp : Parsed pm) (hsubs : LineTopics st.topics)
    (h : distributeMessages cfg env st input pm = some (st', c)) :
    st'.stale = st.stale ∧ ∃ frames, st'.output = st.output ++ frames ∧ Numbered st.messageId frames st'.messageId := by
  by_cases he : expired env.now input.ts cfg.ttl = true
  · rw [distributeMessages_expired he, Option.some_inj, Prod.mk.injEq] at h
    exact h.1 ▸ ⟨rfl, [], by simp, .nil _⟩
  cases ht : pm.topic with
  | none => simp [distributeMessages, he, ht] at h
  | some topic =>
    by_cases hm : pubsubFindMatching st.topics topic = []
    · rw [distributeMessages_no_match ht hm, Option.some_inj, Prod.mk.injEq] at h
      exact h.1 ▸ ⟨rfl, [], by simp, .nil _⟩
    · rw [distributeMessages_match (by simpa using he) ht hm] at h
      obtain ⟨body, -, h⟩ := Option.bind_eq_some_iff.1 h
      obtain ⟨headers, hh, h⟩ := Option.map_eq_some_iff.1 h
      obtain ⟨frames, hout, hnumbered⟩ := @foldl_deliver_numbered topic body (recipients st topic)
        ⟨startHeaders env st topic body headers, st.messageId, []⟩
        (lineMap_startHeaders env st (lineMap_messageHeaders hp hh)) (hp.topic topic ht)
        fun sub hs => (hsubs sub (mem_of_mem_pubsubFindMatching (recipients_subset st topic sub hs))).1
      rw [Prod.mk.injEq] at h
      rw [← h.1]
      exact ⟨rfl, frames, congrArg (st.output ++ ·) hout, hnumbered⟩

theorem swept_numbered {now : ℤ} {ttl : BitVec 32} {sessionId : Fd} {id : CStr} (ht : LineText topic) (hid : LineText id)
    {stale kept : List ParsedMessage} {messageId messageId' : BitVec 32} {out : List MessageWithFrameLen}
    (h : Swept now ttl topic sessionId id stale messageId kept messageId' out) (hstale : ∀ pm ∈ stale, Parsed pm) :
    (∀ pm ∈ kept, Parsed pm) ∧ Numbered messageId out messageId' := by
  induction h with
  | nil => exact ⟨by simp, .nil _⟩
  | dropped _ _ ih => exact ih (List.forall_mem_cons.1 hstale).2
  | stays _ _ _ _ ih =>
    obtain ⟨hpm, hrest⟩ := List.forall_mem_cons.1 hstale
    obtain ⟨hkept, hnumbered⟩ := ih hrest
    exact ⟨List.forall_mem_cons.2 ⟨hpm, hkept⟩, hnumbered⟩
  | @delivered pm rest kept messageId messageId' out messageTopic body headers _ _ _ hh _ ih =>
    obtain ⟨hpm, hrest⟩ := List.forall_mem_cons.1 hstale
    obtain ⟨hkept, hnumbered⟩ := ih hrest
    obtain ⟨-, frame, hframe, hone⟩ :=
      @deliver_numbered topic body ⟨headers, messageId, []⟩ (lineMap_messageHeaders hpm hh) ht sessionId id hid
    rw [hframe]
    exact ⟨hkept, hone.append hnumbered⟩

end Deliveries

structure FromParser (st : StompState) : Prop where
  topics : LineTopics st.topics
  stale : ∀ pm ∈ st.stale, Parsed pm

theorem fromParser_stompStart : FromParser stompStart := ⟨nofun, nofun⟩

theorem processCommand_numbered {cfg : Config} {env : Environment} {st st' : StompState} {input : MessageWithTimestamp}
    {pm : ParsedMessage} {resp : Option MessageWithFrameLen} (hp : Parsed pm) (hst : FromParser st)
    (h : processCommand cfg env st input pm = some (st', resp)) :
    (∀ pm ∈ st'.stale, Parsed pm) ∧
      ∃ frames, st'.output = st.output ++ frames ∧ Numbered st.messageId frames st'.messageId := by
  have hswitch := processCommand_switch cfg env st input pm
  rw [h] at hswitch
  generalize hr : some (st', resp) = result at hswitch
  cases hswitch with
  | refuse | connect | disconnect | unsubscribe | diagnostic =>
    simp only [Option.some.injEq, Prod.mk.injEq] at hr
    obtain ⟨rfl, -⟩ := hr
    exact ⟨hst.stale, [], by simp, .nil _⟩
  | @subscribe id topic hc hi ht hn =>
    obtain ⟨st₁, hd, he⟩ := Option.map_eq_some_iff.1 hr.symm
    obtain ⟨⟨stale, messageId, out⟩, hsweep, hd⟩ := Option.bind_eq_some_iff.1 hd
    obtain ⟨hkept, hnumbered⟩ := swept_numbered (hp.topic topic ht) (hp.id id hi) (swept_of_sweepStale hsweep) hst.stale
    simp only [pure, Option.some.injEq] at hd
    rw [Prod.mk.injEq] at he
    obtain ⟨rfl, -⟩ := he
    subst hd
    exact ⟨hkept, out, rfl, hnumbered⟩
  | send hc ht hn hw =>
    obtain ⟨⟨st₁, c⟩, hd, he⟩ := Option.map_eq_some_iff.1 hr.symm
    rw [Prod.mk.injEq] at he
    obtain ⟨rfl, -⟩ := he
    obtain ⟨hstale, hframes⟩ := distributeMessages_numbered hp hst.topics hd
    exact ⟨hstale ▸ hst.stale, hframes⟩

theorem stompStep_numbered {cfg : Config} {st st' : StompState} {c : Call} (hst : FromParser st)
    (h : stompStep cfg st c = some st') :
    FromParser st' ∧ ∃ new, st'.output = st.output ++ new ∧
      Numbered st.messageId (new.filter fun frame => frame.isMessage) st'.messageId := by
  have htopics := lineTopics_step hst.topics h
  obtain ⟨-, rfl⟩ | ⟨pm, st₁, resp, -, hpm, hc, rfl⟩ := stompStep_cases h
  · exact ⟨⟨htopics, hst.stale⟩, [], by simp, .nil _⟩
  · obtain ⟨hstale, frames, hout, hnumbered⟩ := processCommand_numbered (parsed_of_parseMessage hpm) hst hc
    refine ⟨⟨htopics, hstale⟩, frames ++ closingFrame c.input pm resp, by rw [hout, List.append_assoc], ?_⟩
    have hmessages : frames.filter (fun frame => frame.isMessage) = frames := List.filter_eq_self.2 hnumbered.isMessage
    have hclosing : (closingFrame c.input pm resp).filter (fun frame => frame.isMessage) = [] := by
      refine List.filter_eq_nil_iff.2 fun frame hf => ?_
      rw [closingFrame, Option.mem_toList, Option.or_eq_some_iff] at hf
      rcases hf with hf | ⟨-, hf⟩
      · subst hf
        simp [(processCommand_outcome hc).reply.1]
      · obtain ⟨receiptId, -, rfl⟩ := Option.map_eq_some_iff.1 hf
        simp
    rw [List.filter_append, hmessages, hclosing, List.append_nil]
    exact hnumbered

/-- A run takes its ids from where the counter stands when it begins. -/
theorem run_numbered {cfg : Config} {st st' : StompState} {calls : List Call} (h : Runs cfg st calls st') (hst : FromParser st) :
    FromParser st' ∧ ∃ new, st'.output = st.output ++ new ∧
      Numbered st.messageId (new.filter fun frame => frame.isMessage) st'.messageId := by
  induction h with
  | nil => exact ⟨hst, [], by simp, .nil _⟩
  | snoc _ hstep ih =>
    obtain ⟨hst₁, new₁, hout₁, hnumbered₁⟩ := ih
    obtain ⟨hst', new, hout, hnumbered⟩ := stompStep_numbered hst₁ hstep
    refine ⟨hst', new₁ ++ new, by rw [hout, hout₁, List.append_assoc], ?_⟩
    rw [List.filter_append]
    exact hnumbered₁.append hnumbered

theorem newMessages_numbered {cfg : Config} {st st' : StompState} {calls : List Call} (h : Runs cfg st calls st')
    (hst : FromParser st) : Numbered st.messageId (newMessages st st') st'.messageId := by
  obtain ⟨-, new, hout, hnumbered⟩ := run_numbered h hst
  rw [newMessages, hout, List.drop_left]
  exact hnumbered

/-- Two MESSAGE frames of a run less than a turn of the counter apart show different ids. -/
theorem message_ids_distinct {cfg : Config} {st st' : StompState} {calls : List Call} (hst : FromParser st)
    (h : Runs cfg st calls st') {i j : ℕ} {frame later : MessageWithFrameLen} (hi : (newMessages st st')[i]? = some frame)
    (hj : (newMessages st st')[j]? = some later) (hij : i < j) (hnear : j - i < 2 ^ 32) :
    ∃ id id', messageIdOf frame = some id ∧ messageIdOf later = some id' ∧ id ≠ id' := by
  have hnumbered := newMessages_numbered h hst
  exact ⟨_, _, hnumbered.messageIdOf_getElem hi, hnumbered.messageIdOf_getElem hj, itoa_offset_ne st.messageId hij hnear⟩

/-- A subscriber, and two messages of which the first brings an id of its own. -/
def ownIdCalls : List Call :=
  [⟨quietEnvironment 0, ⟨9, lit "CONNECT\n\n", 0⟩⟩,
    ⟨quietEnvironment 0, ⟨9, lit "SUBSCRIBE\nid:s\ndestination:/a\n\n", 0⟩⟩,
    ⟨quietEnvironment 0, ⟨9, lit "SEND\ndestination:/a\nmessage-id:1\n\nx", 0⟩⟩,
    ⟨quietEnvironment 0, ⟨9, lit "SEND\ndestination:/a\n\ny", 0⟩⟩]

theorem message_ids_distinct_ownId :
    ∃ st frame later, Runs lateConfig stompStart ownIdCalls st ∧ newMessages stompStart st = [frame, later] ∧
      ∃ id id', messageIdOf frame = some id ∧ messageIdOf later = some id' ∧ id ≠ id' := by
  obtain ⟨st, hr, hlen⟩ : ∃ st, Runs lateConfig stompStart ownIdCalls st ∧ (newMessages stompStart st).length = 2 :=
    exists_run_of_exec (by decide)
  obtain ⟨frame, later, hnew⟩ := List.length_eq_two.1 hlen
  exact ⟨st, frame, later, hr, hnew, message_ids_distinct fromParser_stompStart hr (i := 0) (j := 1)
    (by rw [hnew]; rfl) (by rw [hnew]; rfl) (by decide) (by decide)⟩

end StompBroker.MessageIds
