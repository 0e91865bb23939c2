import StompBroker.CyclicCounter
import StompBroker.DeliverySet

/-! Runs of messages to one worker queue. The global counter decides who is next; it has
32 bits and is taken modulo the number of matching subscriptions. -/
namespace StompBroker.WorkerQueue
open CString SessionStorage StompSession Message StompParser PubSub Distribute Stomp
open StompRun DistributeContract DeliverySet CyclicCounter TransitionSystem

structure SendTo (st : StompState) (t : CStr) (c : Call) : Prop where
  frame : isPurge c.input.fd = false
  connected : stompSessionIsConnected st.connected (sessionWithoutFlags c.input.fd) = true
  parsed : ∃ pm body, parseMessage c.env.past c.input = some pm ∧ pm.command = .send ∧ pm.topic = some t ∧
    pm.messageBody = some body

def fresh (cfg : Config) (c : Call) : Bool := !expired c.env.now c.input.ts cfg.ttl

/-- A frame for the subscription at a position of the matching ones. -/
def DeliveredAt (matching : List Subscription) (frame : MessageWithFrameLen) (position : ℕ) : Prop :=
  ∃ sub body, matching[position]? = some sub ∧ Addressed body frame sub

theorem newMessages_trans {st st' st'' : StompState} (h : st.output <+: st'.output) (h' : st'.output <+: st''.output) :
    newMessages st st'' = newMessages st st' ++ newMessages st' st'' := by
  obtain ⟨a, ha⟩ := h
  obtain ⟨b, hb⟩ := h'
  rw [newMessages, newMessages, newMessages, ← hb, ← ha, List.drop_left, List.drop_left, List.append_assoc,
    List.drop_left, List.filter_append]

structure Unmoved (st st' : StompState) : Prop where
  topics : st'.topics = st.topics
  connected : st'.connected = st.connected
  output : st.output <+: st'.output

theorem Unmoved.trans {st st' st'' : StompState} (h : Unmoved st st') (h' : Unmoved st' st'') : Unmoved st st'' :=
  ⟨h'.topics.trans h.topics, h'.connected.trans h.connected, h.output.trans h'.output⟩

variable {cfg : Config} {st st' : StompState} {t : CStr} {c : Call}

/-- An expired message is not delivered and does not move the counter. -/
theorem expired_step (hs : SendTo st t c) (hw : star ∉ t) (he : fresh cfg c = false)
    (h : stompStep cfg st c = some st') :
    Unmoved st st' ∧ newMessages st st' = [] ∧ st'.nextCounter = st.nextCounter := by
  obtain ⟨pm, body, hpm, hc, ht, -⟩ := hs.parsed
  have hexp : expired c.env.now c.input.ts cfg.ttl = true := by simpa [fresh] using he
  rw [stompStep, stompProcess_frame hs.frame hpm, processCommand_send hc ht hs.connected hw,
    distributeMessages_expired hexp] at h
  simp only [Option.map_some, Option.some.injEq] at h
  subst h
  exact ⟨⟨rfl, rfl, List.prefix_append _ _⟩, newMessages_closed (by simp) rfl, rfl⟩

theorem fresh_step (hs : SendTo st t c) (hash : t.head? = some 35) (hw : star ∉ t)
    (hne : pubsubFindMatching st.topics t ≠ []) (he : fresh cfg c = true) (h : stompStep cfg st c = some st') :
    Unmoved st st' ∧ st'.nextCounter = st.nextCounter + 1 ∧
    ∃ frame, newMessages st st' = [frame] ∧ DeliveredAt (pubsubFindMatching st.topics t) frame
      (st.nextCounter.toNat % (pubsubFindMatching st.topics t).length) := by
  obtain ⟨pm, body, hpm, hc, ht, hb⟩ := hs.parsed
  have hexp : expired c.env.now c.input.ts cfg.ttl = false := by simpa [fresh] using he
  obtain ⟨st₁, headers, hst, htopics, hconn, hpre, hh, hnew, hcount⟩ :=
    stompProcess_send hs.frame hpm hc ht hb hs.connected hw hexp
  obtain rfl : st₁ = st' := by simpa [stompStep, hst] using h
  have hlt : st.nextCounter.toNat % (pubsubFindMatching st.topics t).length < _ :=
    Nat.mod_lt _ (List.length_pos_of_ne_nil hne)
  have hall := delivery_addressed c.env st t body (valid_messageHeaders hh)
  rw [← hnew, recipients, if_pos hash, pickNext, List.getElem?_eq_getElem hlt, Option.toList_some] at hall
  obtain ⟨frame, rest, hframe, hrest, hone⟩ := List.forall₂_cons_right_iff.1 hall
  rw [List.forall₂_nil_right_iff.1 hrest] at hone
  exact ⟨⟨htopics, hconn, hpre⟩, by rw [hcount, if_pos ⟨hash, hne⟩], frame, hone, _, body,
    List.getElem?_eq_getElem hlt, hframe⟩

/-- Over a whole run the fresh messages go to the positions that the counter runs through. -/
theorem run_positions {calls : List Call} (h : Runs cfg st calls st') (hs : ∀ c ∈ calls, SendTo st t c)
    (hash : t.head? = some 35) (hw : star ∉ t) (hne : pubsubFindMatching st.topics t ≠ []) :
    Unmoved st st' ∧ st'.nextCounter = st.nextCounter + BitVec.ofNat 32 (calls.countP (fresh cfg)) ∧
    List.Forall₂ (DeliveredAt (pubsubFindMatching st.topics t)) (newMessages st st')
      (picks (2 ^ 32) (pubsubFindMatching st.topics t).length st.nextCounter.toNat (calls.countP (fresh cfg))) := by
  induction h with
  | nil => exact ⟨⟨rfl, rfl, List.prefix_refl _⟩, by simp, by simp [newMessages, picks]⟩
  | snoc prior last ih =>
    rename_i mid st'' es e
    obtain ⟨hmid, hcount, hall⟩ := ih fun c hc => hs c (List.mem_append_left _ hc)
    have hsend : SendTo mid t e := by
      obtain ⟨hframe, hconn, hparsed⟩ := hs e (by simp)
      exact ⟨hframe, hmid.connected ▸ hconn, hparsed⟩
    rw [List.countP_append, List.countP_singleton]
    cases hf : fresh cfg e with
    | false =>
      obtain ⟨hlast, hnew, hsame⟩ := expired_step hsend hw hf last
      refine ⟨hmid.trans hlast, by simp [hsame, hcount], ?_⟩
      rw [newMessages_trans hmid.output hlast.output, hnew]
      simpa using hall
    | true =>
      obtain ⟨hlast, hnext, frame, hnew, hat⟩ := fresh_step hsend hash hw (hmid.topics ▸ hne) hf last
      refine ⟨hmid.trans hlast, ?_, ?_⟩
      · rw [hnext, hcount, BitVec.add_assoc]
        simp [BitVec.ofNat_add]
      · rw [newMessages_trans hmid.output hlast.output, hnew, if_pos rfl, picks_succ]
        refine List.rel_append hall (.cons ?_ .nil)
        rw [hmid.topics, hcount] at hat
        simpa [BitVec.toNat_add] using hat

theorem sendTo_total (cfg : Config) (hs : SendTo st t c) (hw : star ∉ t) : ∃ st', stompStep cfg st c = some st' := by
  obtain ⟨pm, body, hpm, hc, ht, hb⟩ := hs.parsed
  cases he : expired c.env.now c.input.ts cfg.ttl with
  | true =>
    rw [stompStep, stompProcess_frame hs.frame hpm, processCommand_send hc ht hs.connected hw,
      distributeMessages_expired he]
    exact ⟨_, rfl⟩
  | false =>
    obtain ⟨st₁, -, hst, -⟩ := stompProcess_send hs.frame hpm hc ht hb hs.connected hw he
    exact ⟨st₁, by rw [stompStep, hst]; rfl⟩

theorem run_total (cfg : Config) {calls : List Call} (hs : ∀ c ∈ calls, SendTo st t c) (hash : t.head? = some 35)
    (hw : star ∉ t) (hne : pubsubFindMatching st.topics t ≠ []) : ∃ st', Runs cfg st calls st' := by
  induction calls using List.reverseRecOn with
  | nil => exact ⟨st, .nil st⟩
  | append_singleton calls c ih =>
    have hprior : ∀ c ∈ calls, SendTo st t c := fun c hc => hs c (List.mem_append_left _ hc)
    obtain ⟨mid, hrun⟩ := ih hprior
    obtain ⟨hmid, -, -⟩ := run_positions hrun hprior hash hw hne
    obtain ⟨hframe, hconn, hparsed⟩ := hs c (by simp)
    have hsend : SendTo mid t c := ⟨hframe, hmid.connected ▸ hconn, hparsed⟩
    obtain ⟨st', hlast⟩ := sendTo_total cfg hsend hw
    exact ⟨st', .snoc hrun hlast⟩

/-- Every window of as many deliveries as there are matching subscriptions visits each of them once and in
cyclic order, exactly when the counter does not wrap inside the window or the wrap keeps the order. -/
theorem worker_window_iff (cfg : Config) {calls : List Call} (hs : ∀ c ∈ calls, SendTo st t c)
    (hash : t.head? = some 35) (hw : star ∉ t) (hne : pubsubFindMatching st.topics t ≠ []) :
    ∃ st' positions, Runs cfg st calls st' ∧ st'.topics = st.topics ∧
      positions = picks (2 ^ 32) (pubsubFindMatching st.topics t).length st.nextCounter.toNat
        (calls.countP (fresh cfg)) ∧
      List.Forall₂ (DeliveredAt (pubsubFindMatching st.topics t)) (newMessages st st') positions ∧
      ∀ j, j + (pubsubFindMatching st.topics t).length ≤ calls.countP (fresh cfg) →
        (((positions.drop j).take (pubsubFindMatching st.topics t).length).IsRotated
            (List.range (pubsubFindMatching st.topics t).length) ↔
          (pubsubFindMatching st.topics t).length ∣ 2 ^ 32 ∨
            (st.nextCounter.toNat + j) % 2 ^ 32 + (pubsubFindMatching st.topics t).length ≤ 2 ^ 32) := by
  obtain ⟨st', hrun⟩ := run_total cfg hs hash hw hne
  obtain ⟨hun, -, hall⟩ := run_positions hrun hs hash hw hne
  refine ⟨st', _, hrun, hun.topics, rfl, hall, fun j hj => ?_⟩
  rw [take_drop_picks hj]
  exact picks_isRotated_iff (Nat.mod_lt _ (by decide))

/-- Three workers, and a message to them from a connected client. -/
def workers : Topics := [⟨8, lit "#w", lit "a"⟩, ⟨9, lit "#*", lit "b"⟩, ⟨10, lit "#w", lit "c"⟩]

def workersState (counter : BitVec 32) : StompState :=
  { connectedState with topics := workers, nextCounter := counter }

def job : Call := ⟨quietEnvironment 0, ⟨7, lit "SEND\ndestination:#w\n\nx", 0⟩⟩

theorem sendTo_job (counter : BitVec 32) : SendTo (workersState counter) (lit "#w") job :=
  ⟨by decide, (by decide : stompSessionIsConnected connectedState.connected (sessionWithoutFlags 7) = true),
    ⟨.send, .node 1 (lit "destination") (lit "#w") .nil .nil, none, some (lit "x"),
    some (lit "#w"), none, 0⟩, lit "x", by decide, rfl, rfl, rfl⟩

theorem worker_window_iff_workers :
    ∃ st', Runs lateConfig (workersState 0) [job, job, job] st' ∧
      List.Forall₂ (DeliveredAt workers) (newMessages (workersState 0) st') (picks (2 ^ 32) 3 0 3) ∧
      (picks (2 ^ 32) 3 0 3).IsRotated (List.range 3) := by
  have hjobs : ∀ c ∈ [job, job, job], SendTo (workersState 0) (lit "#w") c := by
    simpa using sendTo_job 0
  have hm : pubsubFindMatching (workersState 0).topics (lit "#w") = workers := by decide
  obtain ⟨st', positions, hrun, -, rfl, hall, hwin⟩ :=
    worker_window_iff lateConfig hjobs (by decide) (by decide) (by decide)
  rw [hm] at hall hwin
  exact ⟨st', hrun, hall, (hwin 0 (by decide)).2 (.inr (by decide))⟩

/-- Just before the wrap the first worker gets two messages in a row and the third one none. -/
theorem wrap_skips_worker :
    pubsubFindMatching (workersState 4294967295).topics (lit "#w") = workers ∧
    (exec (stompStep lateConfig) (workersState 4294967295) [job, job, job]).map
      (fun st => st.output.map fun frame => frame.fd) = some [8, 8, 9] := by
  decide

end StompBroker.WorkerQueue
