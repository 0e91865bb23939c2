import StompBroker.Stomp
import StompBroker.TransitionSystem

/-! Runs of the STOMP processor and the ids of a descriptor that occur in them. -/
namespace StompBroker.StompRun
open CString SessionStorage StompSession Message StompParser PubSub Distribute Stomp
open TransitionSystem

/-- One call of the processor with what it reads from outside. -/
structure Call where
  env : Environment
  input : MessageWithTimestamp

def stompStep (cfg : Config) (st : StompState) (c : Call) : Option StompState :=
  (stompProcess cfg c.env st c.input).map Prod.fst

abbrev Runs (cfg : Config) := Run (Steps (stompStep cfg))

theorem stompStep_spec {cfg : Config} {st st' : StompState} {c : Call}
    (h : stompStep cfg st c = some st') :
    SessionChange st c.input st'.topics st'.connected ∧
    ∃ frames, st'.output = st.output ++ frames ∧ ∀ frame ∈ frames, FrameOrigin st c.input frame := by
  obtain ⟨⟨st'', ret⟩, hp, rfl⟩ := Option.map_eq_some_iff.mp h
  exact stompProcess_spec hp

theorem stompStep_cases {cfg : Config} {st st' : StompState} {c : Call} (h : stompStep cfg st c = some st') :
    (isPurge c.input.fd = true ∧ st' = { st with
      topics := pubsubRemoveClient st.topics (sessionWoCmdPurge c.input.fd)
      connected := stompSessionSetConnected st.connected (sessionWithoutFlags c.input.fd) 0 }) ∨
    ∃ pm st₁ resp, isPurge c.input.fd = false ∧ parseMessage c.env.past c.input = some pm ∧
      processCommand cfg c.env st c.input pm = some (st₁, resp) ∧
      st' = { st₁ with output := st₁.output ++ closingFrame c.input pm resp } := by
  obtain ⟨⟨st'', ret⟩, hs, rfl⟩ := Option.map_eq_some_iff.mp h
  cases hp : isPurge c.input.fd with
  | true =>
    rw [stompProcess_purge hp, Option.some_inj, Prod.mk.injEq] at hs
    exact .inl ⟨rfl, hs.1.symm⟩
  | false =>
    cases hpm : parseMessage c.env.past c.input with
    | none => simp [stompProcess, hp, hpm] at hs
    | some pm =>
      rw [stompProcess_frame hp hpm] at hs
      obtain ⟨⟨st₁, resp⟩, hc, he⟩ := Option.map_eq_some_iff.1 hs
      rw [Prod.mk.injEq] at he
      exact .inr ⟨pm, st₁, resp, rfl, rfl, hc, he.1.symm⟩

/-- What the switch makes of the subscription list and the connected bitmap. -/
def switchSessions (topics : Topics) (connected : SessionConnected) (fd : Fd) (pm : ParsedMessage) :
    Topics × SessionConnected :=
  let number := sessionWithoutFlags fd
  match stompSessionIsConnected connected number, pm.command, pm.id, pm.topic with
  | false, .connect, _, _ => (topics, stompSessionSetConnected connected number 1)
  | true, .disconnect, _, _ => (pubsubRemoveClient topics fd, stompSessionSetConnected connected number 0)
  | true, .subscribe, some id, some topic => (pubsubSubscribe topics topic fd id, connected)
  | true, .unsubscribe, some id, some topic => (pubsubUnsubscribe topics topic fd id, connected)
  | _, _, _, _ => (topics, connected)

theorem switchSessions_of_not_accepted {st : StompState} {input : MessageWithTimestamp} {pm : ParsedMessage}
    (h : ¬ Accepted st input pm) :
    switchSessions st.topics st.connected input.fd pm = (st.topics, st.connected) := by
  unfold switchSessions
  dsimp only
  split
  · rename_i hn hc
    exact absurd (by simp [Accepted, hc, hn]) h
  · rename_i hn hc
    exact absurd (by simp [Accepted, hc, hn]) h
  · rename_i hn hc hi ht
    exact absurd (by simp [Accepted, hc, hn, hi, ht]) h
  · rename_i hn hc hi ht
    exact absurd (by simp [Accepted, hc, hn, hi, ht]) h
  · rfl

theorem processCommand_sessions {cfg : Config} {env : Environment} {st st' : StompState}
    {input : MessageWithTimestamp} {pm : ParsedMessage} {resp : Option MessageWithFrameLen}
    (h : processCommand cfg env st input pm = some (st', resp)) :
    (st'.topics, st'.connected) = switchSessions st.topics st.connected input.fd pm := by
  have hswitch := processCommand_switch cfg env st input pm
  generalize processCommand cfg env st input pm = result at h hswitch
  cases hswitch with
  | refuse reason hr =>
    cases h
    exact (switchSessions_of_not_accepted hr).symm
  | connect hc hn =>
    cases h
    simp [switchSessions, hc, hn]
  | disconnect hc hn =>
    cases h
    simp [switchSessions, hc, hn]
  | subscribe hc hi ht hn =>
    obtain ⟨st₁, hd, he⟩ := Option.map_eq_some_iff.mp h
    cases he
    obtain ⟨stale, messageId, frames, -, rfl⟩ := distributeMessagesFromStaleQ_cases hd
    simp [switchSessions, hc, hi, ht, hn]
  | unsubscribe hc hi ht hn =>
    cases h
    simp [switchSessions, hc, hi, ht, hn]
  | send hc ht hn hw =>
    obtain ⟨⟨st₁, consumption⟩, hd, he⟩ := Option.map_eq_some_iff.mp h
    cases he
    obtain ⟨-, rfl | ⟨topic, frames, messageId, nextCounter, -, -, rfl⟩⟩ := distributeMessages_cases hd
    · simp [switchSessions, hc]
    · simp [switchSessions, hc]
  | diagnostic hc hb =>
    cases h
    simp [switchSessions, hc]

/-- A bit is set by a CONNECT of its number, accepted or not, and cleared by a DISCONNECT. -/
theorem switchSessions_bit (topics : Topics) (connected : SessionConnected) (fd number : Fd) (pm : ParsedMessage) :
    stompSessionIsConnected (switchSessions topics connected fd pm).2 number = true ↔
      (sessionWithoutFlags fd = number ∧ pm.command = .connect) ∨
      (stompSessionIsConnected connected number = true ∧
        ¬ (sessionWithoutFlags fd = number ∧ pm.command = .disconnect)) := by
  by_cases hm : sessionWithoutFlags fd = number
  · subst hm
    cases hb : stompSessionIsConnected connected (sessionWithoutFlags fd) <;> cases hc : pm.command <;>
      cases hi : pm.id <;> cases ht : pm.topic <;> simp [switchSessions, hb, hc, hi, ht]
  · have hm' : number ≠ sessionWithoutFlags fd := fun h => hm h.symm
    cases hb : stompSessionIsConnected connected (sessionWithoutFlags fd) <;> cases hc : pm.command <;>
      cases hi : pm.id <;> cases ht : pm.topic <;>
      simp [switchSessions, hb, hc, hi, ht, hm, stompSessionIsConnected_set_of_ne _ hm']

/-- A subscription is entered by an accepted SUBSCRIBE with its fields and taken out by an accepted
DISCONNECT of its session or UNSUBSCRIBE with its fields. -/
theorem mem_switchSessions (topics : Topics) (connected : SessionConnected) (fd : Fd) (pm : ParsedMessage)
    (sub : Subscription) :
    sub ∈ (switchSessions topics connected fd pm).1 ↔
      (stompSessionIsConnected connected (sessionWithoutFlags fd) = true ∧ sub.sessionId = fd ∧
        pm.command = .subscribe ∧ pm.id = some sub.id ∧ pm.topic = some sub.topicPattern) ∨
      (sub ∈ topics ∧ ¬ (stompSessionIsConnected connected (sessionWithoutFlags fd) = true ∧ sub.sessionId = fd ∧
        (pm.command = .disconnect ∨
          pm.command = .unsubscribe ∧ pm.id = some sub.id ∧ pm.topic = some sub.topicPattern))) := by
  obtain ⟨sessionId, topicPattern, id⟩ := sub
  cases hb : stompSessionIsConnected connected (sessionWithoutFlags fd) <;> cases hc : pm.command <;>
    cases hi : pm.id <;> cases ht : pm.topic <;>
    simp [switchSessions, hb, hc, hi, ht, pubsubRemoveClient, pubsubSubscribe, pubsubUnsubscribe]
  case true.subscribe.some.some => grind
  case true.unsubscribe.some.some => grind

/-- The ids under which messages of one descriptor reach the processor. -/
inductive IdOf (fd : Fd) : Fd → Prop
  | raw : IdOf fd fd
  | encoded : IdOf fd (sessionSetEncoded fd)
  | purge : IdOf fd (sessionSetCmdPurge fd)
  | purgeEncoded : IdOf fd (sessionSetCmdPurge (sessionSetEncoded fd))

def ownedBy (fd : Fd) (sub : Subscription) : Bool :=
  sub.sessionId == fd || sub.sessionId == sessionSetEncoded fd

theorem IdOf.sessionWithoutFlags_eq {a id : Fd} (h : IdOf a id) :
    sessionWithoutFlags id = sessionWithoutFlags a := by
  cases h <;> simp

theorem ownedBy_ne {a b : Fd} (ha : Plain a) (hb : Plain b) (hne : a ≠ b) {sub : Subscription}
    (h : ownedBy b sub = true) : sub.sessionId ≠ a ∧ sub.sessionId ≠ sessionSetEncoded a := by
  simp only [ownedBy, Bool.or_eq_true, beq_iff_eq] at h
  rcases h with h | h
  · exact ⟨fun he => hne (he.symm.trans h), fun he => hb.sessionSetEncoded_ne (h.symm.trans he)⟩
  · refine ⟨fun he => ha.sessionSetEncoded_ne (he.symm.trans h), fun he => hne ?_⟩
    exact (sessionSetEncoded_inj ha hb).mp (he.symm.trans h)

theorem IdOf.sessionWoCmdPurge_cases {a id : Fd} (h : IdOf a id) (ha : a.toNat ≤ 0x3FFF) :
    sessionWoCmdPurge id = a ∨ sessionWoCmdPurge id = sessionSetEncoded a := by
  have hp : Plain a := plain_of_le ha
  have hm := sessionWithoutFlags_of_le ha
  have hraw : sessionWoCmdPurge a = a := by
    rw [sessionWoCmdPurge, BitVec.and_or_distrib_left, hp.encoded_apart, BitVec.zero_or]
    exact hm
  cases h with
  | raw => exact .inl hraw
  | encoded =>
    right
    unfold sessionWoCmdPurge sessionSetEncoded
    rw [BitVec.and_or_distrib_left, BitFlags.or_and_self, BitFlags.or_and_of_apart (by decide),
      show a &&& fdMask = a from hm, BitVec.or_comm]
  | purge => exact .inl (hp.sessionWoCmdPurge_setCmdPurge.trans hm)
  | purgeEncoded => exact .inr ((sessionWoCmdPurge_setCmdPurge_setEncoded a).trans (by rw [hm]))

/-- The comparison with the masked id never hides a purge flag. -/
theorem isPurge_eq (fd : Fd) : isPurge fd = sessionIsCmdPurge fd := by
  by_cases h : fd = sessionWithoutFlags fd
  · have hf : sessionIsCmdPurge fd = false := by
      rw [h]
      exact (sessionWithoutFlags_plain fd).sessionIsCmdPurge_eq
    simp [isPurge, hf]
  · simp [isPurge, h]

theorem isPurge_setCmdPurge (fd : Fd) : isPurge (sessionSetCmdPurge fd) = true := by
  rw [isPurge_eq]
  exact sessionIsCmdPurge_setCmdPurge fd

theorem IdOf.eq_or_of_not_purge {a id : Fd} (h : IdOf a id) (hp : isPurge id = false) :
    id = a ∨ id = sessionSetEncoded a := by
  cases h with
  | raw => exact .inl rfl
  | encoded => exact .inr rfl
  | purge => simp [isPurge_eq] at hp
  | purgeEncoded => simp [isPurge_eq] at hp

theorem stompProcess_connect {cfg : Config} {env : Environment} {st : StompState} {fd : Fd}
    (hp : isPurge fd = false)
    (hn : stompSessionIsConnected st.connected (sessionWithoutFlags fd) = false) :
    stompProcess cfg env st ⟨fd, lit "CONNECT\n\n", 0⟩ =
      some ({ st with
        connected := stompSessionSetConnected st.connected (sessionWithoutFlags fd) 1
        output := st.output ++ [messageConnected fd (sessionWithoutFlags fd)] }, 0) := by
  have hpm : parseMessage env.past ⟨fd, lit "CONNECT\n\n", 0⟩ =
      some ⟨.connect, .nil, none, some [], none, none, 0⟩ := rfl
  simp [stompProcess, hp, hpm, processCommand, hn]

end StompBroker.StompRun
