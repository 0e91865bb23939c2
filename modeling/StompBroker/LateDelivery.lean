import StompBroker.Relay

/-! Late delivery from the stale queue against live delivery: which messages a new
subscription picks up, and what their frames say. -/
namespace StompBroker.LateDelivery
open CString AssociativeArray SessionStorage StompSession Message StompParser PubSub Distribute Stomp
open HeaderMap StompRun DistributeContract DeliverySet Relay TransitionSystem

variable {now : ℤ} {ttl : BitVec 32} {pattern id : CStr} {fd : Fd}

/-- The sweep is one walk: the first message is treated as if it were alone. -/
theorem sweepStale_cons (pm : ParsedMessage) (rest : List ParsedMessage) (messageId : BitVec 32) :
    sweepStale now ttl pattern fd id (pm :: rest) messageId =
      (sweepStale now ttl pattern fd id [pm] messageId).bind fun p =>
        (sweepStale now ttl pattern fd id rest p.2.1).map fun q => (p.1 ++ q.1, q.2.1, p.2.2 ++ q.2.2) := by
  simp only [sweepStale]
  split_ifs with he
  · simp
  · cases ht : pm.topic with
    | none => rfl
    | some t =>
      simp only [Option.bind_eq_bind, Option.bind_some]
      split_ifs with hm
      · cases hb : pm.messageBody with
        | none => rfl
        | some body => simp [Option.map_eq_bind, Option.bind_assoc]
      · simp [Option.map_eq_bind]

theorem sweepStale_append (front back : List ParsedMessage) (messageId : BitVec 32) :
    sweepStale now ttl pattern fd id (front ++ back) messageId =
      (sweepStale now ttl pattern fd id front messageId).bind fun p =>
        (sweepStale now ttl pattern fd id back p.2.1).map fun q => (p.1 ++ q.1, q.2.1, p.2.2 ++ q.2.2) := by
  induction front generalizing messageId with
  | nil => simp [sweepStale]
  | cons pm front ih =>
    rw [List.cons_append, sweepStale_cons, sweepStale_cons pm front, Option.bind_assoc]
    congr 1
    funext p
    rw [ih, Option.map_bind, Option.bind_map]
    congr 1
    funext q
    simp [Option.map_map, Function.comp_def]

theorem sweepStale_prefix {front back kept kept₁ : List ParsedMessage} {pm : ParsedMessage} {m m₁ m₂ m' : BitVec 32}
    {out out₁ out₂ : List MessageWithFrameLen} {kept₂ : List ParsedMessage}
    (hfront : sweepStale now ttl pattern fd id front m = some (kept₁, m₁, out₁))
    (hone : sweepStale now ttl pattern fd id [pm] m₁ = some (kept₂, m₂, out₂))
    (hall : sweepStale now ttl pattern fd id (front ++ pm :: back) m = some (kept, m', out)) :
    out₁ ++ out₂ <+: out := by
  rw [sweepStale_append, hfront, Option.bind_some, sweepStale_cons, hone, Option.bind_some, Option.map_map] at hall
  obtain ⟨⟨kept₃, m₃, out₃⟩, -, hq⟩ := Option.map_eq_some_iff.1 hall
  simp only [Function.comp_apply, Prod.mk.injEq] at hq
  rw [← hq.2.2, ← List.append_assoc]
  exact List.prefix_append _ _

theorem sweepStale_fresh {pm : ParsedMessage} {t body : CStr} (hp : Parsed pm) (hne : pm.headers ≠ .nil)
    (ht : pm.topic = some t) (hb : pm.messageBody = some body) (hage : expired now pm.ts ttl = false)
    (messageId : BitVec 32) :
    (staleMatches pattern t = false ∧
      sweepStale now ttl pattern fd id [pm] messageId = some ([pm], messageId, [])) ∨
    (staleMatches pattern t = true ∧ ∃ frame,
      sweepStale now ttl pattern fd id [pm] messageId = some ([], messageId + 1, [frame]) ∧
      Carries frame fd body (stamped (sentHeaders pm body) pattern id messageId)) := by
  cases hm : staleMatches pattern t with
  | false => exact .inl ⟨rfl, by simp [sweepStale, hage, ht, hm]⟩
  | true =>
    obtain ⟨headers, hh⟩ : ∃ headers, messageHeaders pm body = some headers := by
      obtain ⟨merged, hmerge⟩ := Option.isSome_iff_exists.1 (aaMerge_isSome .nil hne)
      exact ⟨_, by rw [messageHeaders, hmerge]; rfl⟩
    obtain ⟨hv, hid, hval, hout⟩ := deliver_spec pattern body ⟨headers, messageId, []⟩
      (valid_messageHeaders hh) fd id
    refine .inr ⟨rfl, messageSendWithHeaders fd (deliver pattern body ⟨headers, messageId, []⟩ fd id).headers body,
      by simp [sweepStale, hage, ht, hm, hb, hh, hid, hout], _, hv, rfl, fun key => ?_⟩
    rw [hval key, funext (messageHeaders_value hp.valid hh)]

theorem mem_swept_kept {stale kept : List ParsedMessage} {messageId messageId' : BitVec 32}
    {out : List MessageWithFrameLen} {pm : ParsedMessage} {t : CStr} (ht : pm.topic = some t)
    (h : Swept now ttl pattern fd id stale messageId kept messageId' out) :
    pm ∈ kept ↔ pm ∈ stale ∧ expired now pm.ts ttl = false ∧ staleMatches pattern t = false := by
  induction h with
  | nil => simp
  | @dropped first _ _ _ _ _ he _ ih =>
    have hno : ¬ (pm = first ∧ expired now pm.ts ttl = false ∧ staleMatches pattern t = false) := by
      rintro ⟨rfl, hage, -⟩
      rw [hage] at he
      cases he
    rw [ih, List.mem_cons, or_and_right, or_iff_right hno]
  | @delivered first _ _ _ _ _ _ _ _ _ ht' hm _ _ ih =>
    have hno : ¬ (pm = first ∧ expired now pm.ts ttl = false ∧ staleMatches pattern t = false) := by
      rintro ⟨rfl, -, hmiss⟩
      obtain rfl := Option.some_inj.1 (ht.symm.trans ht')
      rw [hmiss] at hm
      cases hm
    rw [ih, List.mem_cons, or_and_right, or_iff_right hno]
  | @stays first _ _ _ _ _ _ he ht' hm _ ih =>
    have hstays : pm = first → expired now pm.ts ttl = false ∧ staleMatches pattern t = false := by
      rintro rfl
      obtain rfl := Option.some_inj.1 (ht.symm.trans ht')
      exact ⟨he, hm⟩
    rw [List.mem_cons, ih, List.mem_cons, or_and_right, and_iff_left_of_imp hstays]

/-- The matching rule of the sweep: a wildcard has to stand for at least one byte. -/
theorem staleMatches_iff (pattern topic : CStr) :
    staleMatches pattern topic = true ↔ (star ∉ pattern ∧ pattern = topic) ∨
      (star ∈ pattern ∧ fixedPart pattern <+: topic ∧ topic ≠ fixedPart pattern) := by
  by_cases hp : star ∈ pattern
  · have hw : strchr pattern star ≠ none := fun h => strchr_eq_none.1 h hp
    have hpre : topic.take (maskLen pattern) = fixedPart pattern ↔ fixedPart pattern <+: topic := by
      rw [maskLen_eq, eq_comm, ← List.prefix_iff_eq_take]
    simp only [staleMatches, hw, hp, strncmpEq, take_maskLen, not_true_eq_false, false_and, false_or, true_and,
      ne_eq, not_false_eq_true, beq_iff_eq, decide_eq_true_eq, hpre]
    rw [maskLen_eq]
    constructor
    · rintro ⟨hlt, hpre⟩
      exact ⟨hpre, fun he => by rw [he] at hlt; omega⟩
    · rintro ⟨hpre, hne⟩
      refine ⟨lt_of_le_of_ne hpre.length_le fun he => hne ?_, hpre⟩
      exact (hpre.eq_of_length he).symm
  · have hw : strchr pattern star = none := strchr_eq_none.2 hp
    have hlen : maskLen pattern = pattern.length := by rw [maskLen_eq, fixedPart_of_not_mem hp]
    simp only [staleMatches, hw, hp, hlen, strncmpEq, List.take_length, not_false_eq_true, true_and, ne_eq,
      not_true_eq_false, false_and, or_false, decide_eq_true_eq, beq_iff_eq]
    constructor
    · rintro ⟨hl, ht⟩
      rw [← hl, List.take_length] at ht
      exact ht.symm
    · rintro rfl
      exact ⟨rfl, List.take_length⟩

theorem staleMatches_self (pattern : CStr) : staleMatches pattern pattern = true := by
  rw [staleMatches_iff]
  by_cases hp : star ∈ pattern
  · refine .inr ⟨hp, List.takeWhile_prefix _, fun he => ?_⟩
    rw [he] at hp
    have := List.mem_takeWhile_imp hp
    simp at this
  · exact .inl ⟨hp, rfl⟩

/-- Live and late matching agree on a message and a pattern, except where the wildcard would have to
stand for the empty text. -/
theorem late_match_iff {env : Environment} {st st' : StompState} {ttl : BitVec 32} {sub : Subscription}
    {topics : Topics} {pm : ParsedMessage} {t : CStr}
    (h : distributeMessagesFromStaleQ env st sub.topicPattern sub.sessionId sub.id ttl = some st')
    (hpm : pm ∈ st.stale) (ht : pm.topic = some t) (hw : star ∉ t) (hage : expired env.now pm.ts ttl = false)
    (hsub : sub ∈ topics) :
    (pm ∉ st'.stale ↔ sub ∈ pubsubFindMatching topics t) ↔
      ¬ (star ∈ sub.topicPattern ∧ t = fixedPart sub.topicPattern) := by
  obtain ⟨⟨kept, messageId, out⟩, hs, h⟩ := Option.bind_eq_some_iff.mp h
  simp only [pure, Option.some.injEq] at h
  have hkept := mem_swept_kept ht (swept_of_sweepStale hs)
  have hlive : sub ∈ pubsubFindMatching topics t ↔ Matches t sub.topicPattern := by
    rw [pubsubFindMatching_eq hw, List.mem_filter, decide_eq_true_iff]
    simp [hsub]
  have hlate : pm ∉ st'.stale ↔ staleMatches sub.topicPattern t = true := by
    rw [← h, hkept]
    simp [hpm, hage]
  rw [hlate, hlive, staleMatches_iff, Matches]
  by_cases hp : star ∈ sub.topicPattern
  · simp only [hp, not_true_eq_false, false_and, false_or, true_and]
    constructor
    · intro hiff he
      exact (hiff.2 (he ▸ List.prefix_refl _)).2 he
    · intro hne
      simp [hne]
  · simp [hp]

/-- A message that waits with the fixed part of a pattern as its topic. -/
def waiting : ParsedMessage :=
  ⟨.send, .node 1 (lit "destination") (lit "/queue/") .nil .nil, none, some (lit "hello"),
    some (lit "/queue/"), none, 1000⟩

def waitingState : StompState := { stompStart with stale := [waiting] }

def plainSub : Subscription := ⟨9, lit "/queue/", lit "s"⟩
def wildSub : Subscription := ⟨9, lit "/queue/*", lit "s"⟩

theorem late_match_iff_plainSub :
    ∃ st', distributeMessagesFromStaleQ (quietEnvironment 2000) waitingState plainSub.topicPattern plainSub.sessionId
        plainSub.id 5000 = some st' ∧
      (waiting ∉ st'.stale ↔ plainSub ∈ pubsubFindMatching [plainSub] (lit "/queue/")) := by
  have hsome : (distributeMessagesFromStaleQ (quietEnvironment 2000) waitingState plainSub.topicPattern
      plainSub.sessionId plainSub.id 5000).isSome = true := by decide
  obtain ⟨st', h⟩ := Option.isSome_iff_exists.1 hsome
  have hmem : waiting ∈ waitingState.stale := List.mem_singleton.2 rfl
  exact ⟨st', h, (late_match_iff h hmem rfl (by decide) (by decide) (List.mem_singleton.2 rfl)).2 (by decide)⟩

/-- The wildcard subscription receives the topic live and never picks it up late. -/
theorem wildSub_misses_waiting :
    (distributeMessagesFromStaleQ (quietEnvironment 2000) waitingState wildSub.topicPattern wildSub.sessionId
        wildSub.id 5000).map (fun st => st.stale) = some [waiting] ∧
      wildSub ∈ pubsubFindMatching [wildSub] (lit "/queue/") ∧ star ∉ lit "/queue/" ∧
      expired (quietEnvironment 2000).now waiting.ts 5000 = false := by
  decide

/-- Two frames with the same body and, message ids apart, the same headers. -/
def SameReading (late live : MessageWithFrameLen) (body : CStr) : Prop :=
  ∃ value value', ReadsAs late value body ∧ ReadsAs live value' body ∧
    ∀ key, key ≠ lit "message-id" → value key = value' key

/-- The frame built for a message of the stale queue, wherever it stands, looks like the frame of a live
delivery to the same subscription exactly when the pattern is the topic itself. -/
theorem late_frame_like_live_iff {cfg : Config} {env : Environment} {st st' : StompState} {calls : List Call}
    {input : MessageWithTimestamp} {pm : ParsedMessage} {t body : CStr} {c : Consumption} {j : ℕ}
    {sub : Subscription} {live : MessageWithFrameLen} {now : ℤ} {ttl m m₁ m' : BitVec 32}
    {front back kept kept₁ : List ParsedMessage} {out out₁ : List MessageWithFrameLen}
    (hr : Runs cfg stompStart calls st) (hpm : parseMessage env.past input = some pm) (ht : pm.topic = some t)
    (hb : pm.messageBody = some body) (hd : ¬ lit "DIAG" <+: t)
    (hlive : distributeMessages cfg env st input pm = some (st', c))
    (hf : (st'.output.drop st.output.length)[j]? = some live) (hs : (recipients st t)[j]? = some sub)
    (hage : expired now pm.ts ttl = false)
    (hall : sweepStale now ttl sub.topicPattern sub.sessionId sub.id (front ++ pm :: back) m = some (kept, m', out))
    (hfront : sweepStale now ttl sub.topicPattern sub.sessionId sub.id front m = some (kept₁, m₁, out₁)) :
    (∃ late, sweepStale now ttl sub.topicPattern sub.sessionId sub.id [pm] m₁ = some ([], m₁ + 1, [late]) ∧
      out₁ ++ [late] <+: out ∧ SameReading late live body) ↔ sub.topicPattern = t := by
  have hp := parsed_of_parseMessage hpm
  have hread := (distributeMessages_readsAs hr hpm ht hb hd hlive hf hs).2
  have hsub : sub ∈ st.topics :=
    mem_of_mem_pubsubFindMatching (recipients_subset st t sub (List.mem_of_getElem? hs))
  obtain ⟨hid, hpattern⟩ := lineTopics_of_run hr sub hsub
  have hstep := @sweepStale_fresh now ttl sub.topicPattern sub.id sub.sessionId pm t body hp
    (parseMessage_headers_ne_nil hpm ht) ht hb hage m₁
  rcases hstep with ⟨hno, hkeep⟩ | ⟨-, late, hone, hcarry⟩
  · -- no frame at all: the pattern is not even matched by its own text
    constructor
    · rintro ⟨late, hone, -⟩
      rw [hkeep] at hone
      simp at hone
    · rintro rfl
      rw [staleMatches_self] at hno
      cases hno
  · have hlate : ReadsAs late (stamped (sentHeaders pm body) sub.topicPattern sub.id m₁) body :=
      Carries.readsAs hcarry (lit "subscription") (by simp [stamped]) fun k v hkv =>
        linePairs_stamped hp hpattern hid _ hkv
    constructor
    · rintro ⟨late', hone', -, value, value', hv, hv', hsame⟩
      obtain rfl : late = late' := by simpa [hone] using hone'
      have hdest := hsame (lit "destination") (by decide)
      rw [← hlate.unique hv, ← hread.unique hv'] at hdest
      exact Option.some_inj.1 hdest
    · intro hpt
      refine ⟨late, hone, sweepStale_prefix hfront hone hall, _, _, hlate, hread, fun key hkey => ?_⟩
      simp only [stamped, hkey, if_false, hpt]

def exactCalls : List Call :=
  [⟨quietEnvironment 0, ⟨9, lit "CONNECT\n\n", 0⟩⟩,
    ⟨quietEnvironment 0, ⟨9, lit "SUBSCRIBE\nid:s\ndestination:/topic/1\n\n", 0⟩⟩]

def exactSub : Subscription := ⟨9, lit "/topic/1", lit "s"⟩

theorem late_frame_like_live_iff_exactSub :
    ∃ st st' live late, Runs lateConfig stompStart exactCalls st ∧
      distributeMessages lateConfig (quietEnvironment 2000) st lateSend lateParsed = some (st', .consumed) ∧
      (st'.output.drop st.output.length)[0]? = some live ∧
      sweepStale 2000 5000 exactSub.topicPattern exactSub.sessionId exactSub.id [lateParsed] 0 =
        some ([], 0 + 1, [late]) ∧ SameReading late live (lit "hello0") := by
  obtain ⟨st, hr, htopics⟩ : ∃ st, Runs lateConfig stompStart exactCalls st ∧ st.topics = [exactSub] :=
    exists_run_of_exec (by decide)
  have hrec : recipients st (lit "/topic/1") = [exactSub] := by
    rw [recipients, htopics]
    rfl
  have hpm : parseMessage (quietEnvironment 2000).past lateSend = some lateParsed := lateSend_parsed
  obtain ⟨st', frames, hlive, hout, hlen⟩ := distributeMessages_count st hpm
    (show lateParsed.topic = some (lit "/topic/1") from rfl) (show lateParsed.messageBody = some (lit "hello0") from rfl)
    (show expired (quietEnvironment 2000).now lateSend.ts lateConfig.ttl = false by decide)
  rw [hrec] at hlen
  obtain ⟨live, rfl⟩ := List.length_eq_one_iff.1 hlen
  have hf : (st'.output.drop st.output.length)[0]? = some live := by rw [hout, List.drop_left]; rfl
  have hsome : (sweepStale 2000 5000 exactSub.topicPattern exactSub.sessionId exactSub.id
      ([] ++ lateParsed :: []) 0).isSome = true := by decide
  obtain ⟨⟨kept, m', out⟩, hall⟩ := Option.isSome_iff_exists.1 hsome
  obtain ⟨late, hone, -, hsame⟩ := (late_frame_like_live_iff hr hpm rfl rfl (by decide) hlive hf
    (by rw [hrec]; rfl) (show expired 2000 lateParsed.ts 5000 = false by decide) hall rfl).2 rfl
  exact ⟨st, st', live, late, hr, hlive, hf, hone, hsame⟩

def readDestination (frame : MessageWithFrameLen) : Option (Option CStr) :=
  (parseHeaders [] ⟨.unknown, .nil, none, none, none, none, 0⟩ (frame.content.drop 8)).map fun p =>
    aaValue (lit "destination") p.1.headers

/-- Late the frame names the pattern, live it names the topic. -/
theorem late_destination_is_pattern :
    (sweepStale 2000 5000 (lit "/topic/*") 9 (lit "s") [lateParsed] 0).map (fun p => p.2.2.map readDestination) =
        some [some (some (lit "/topic/*"))] ∧
      (distributeMessages lateConfig (quietEnvironment 2000) twoTopicsState lateSend lateParsed).map
        (fun p => p.1.output.map readDestination) = some [some (some (lit "/topic/1"))] ∧
      (⟨9, lit "/topic/*", lit "s"⟩ : Subscription) ∈ twoTopicsState.topics := by
  decide

end StompBroker.LateDelivery
