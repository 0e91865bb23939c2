import StompBroker.Teardown

/-! The purge that a writer puts in front of the input queue. The messages that were queued
before it are processed after it, so the descriptor is clean in the end only when they leave
it so by themselves. -/
namespace StompBroker.WriterPurge
open CString SessionStorage StompSession Message StompParser PubSub Distribute Stomp StompRun TransitionSystem
open AcceptEpoll ReaderThread Teardown

def Processed (c : Call) : Prop := isHttpRequest c.input.content = false

def IsPurge (c : Call) : Prop := Processed c ∧ isPurge c.input.fd = true

def IsFrame (command : Command) (c : Call) : Prop :=
  Processed c ∧ isPurge c.input.fd = false ∧ parseCommand c.input.content = command

def Connects (number : Fd) (_ : List Call) (c : Call) : Prop :=
  IsFrame .connect c ∧ sessionWithoutFlags c.input.fd = number

def HangsUp (number : Fd) (_ : List Call) (c : Call) : Prop :=
  (IsPurge c ∨ IsFrame .disconnect c) ∧ sessionWithoutFlags c.input.fd = number

/-- A CONNECT under the number that no DISCONNECT or purge has followed. -/
def InForce (number : Fd) (calls : List Call) : Prop := Since (Connects number) (HangsUp number) calls

def Names (c : Call) (topic id : CStr) : Prop :=
  ∃ pm, parseMessage c.env.past c.input = some pm ∧ pm.topic = some topic ∧ pm.id = some id

/-- A SUBSCRIBE of the descriptor itself while a CONNECT is in force. -/
def Subscribes (fd : Fd) (topic id : CStr) (before : List Call) (c : Call) : Prop :=
  IsFrame .subscribe c ∧ c.input.fd = fd ∧ Names c topic id ∧ InForce fd before

def Drops (fd : Fd) (topic id : CStr) (before : List Call) (c : Call) : Prop :=
  (IsPurge c ∧ sessionWoCmdPurge c.input.fd = fd) ∨
  (c.input.fd = fd ∧ InForce fd before ∧ (IsFrame .disconnect c ∨ IsFrame .unsubscribe c ∧ Names c topic id))

variable {createAcceptKey : CStr → CStr} {cfg : Config} {st st' : StompState} {c : Call}

theorem readerThread_sessions (h : readerThread createAcceptKey cfg st c = some st') :
    (¬ Processed c ∧ st'.topics = st.topics ∧ st'.connected = st.connected) ∨
    (IsPurge c ∧ st'.topics = pubsubRemoveClient st.topics (sessionWoCmdPurge c.input.fd) ∧
      st'.connected = stompSessionSetConnected st.connected (sessionWithoutFlags c.input.fd) 0) ∨
    ∃ pm, IsFrame pm.command c ∧ parseMessage c.env.past c.input = some pm ∧
      (st'.topics, st'.connected) = switchSessions st.topics st.connected c.input.fd pm := by
  unfold readerThread at h
  split_ifs at h
  split at h
  · rename_i frames hf
    cases h
    refine .inl ⟨fun hp => ?_, rfl, rfl⟩
    simp [wsInputFilterHandshake, show isHttpRequest c.input.content = false from hp] at hf
  · rename_i hf
    have hp : Processed c := by
      by_contra hno
      have hreq : isHttpRequest c.input.content = true := by simpa [Processed] using hno
      rw [wsInputFilterHandshake, if_pos hreq] at hf
      split at hf <;> cases hf
    obtain ⟨hpurge, rfl⟩ | ⟨pm, st₁, resp, hpn, hpm, hc, rfl⟩ := stompStep_cases h
    · exact .inr (.inl ⟨⟨hp, hpurge⟩, rfl, rfl⟩)
    · have hsessions := processCommand_sessions hc
      exact .inr (.inr ⟨pm, ⟨hp, hpn, (parseMessage_command hpm).symm⟩, hpm, hsessions⟩)

theorem IsFrame.not_isPurge {command : Command} (h : IsFrame command c) : ¬ IsPurge c := by
  rintro ⟨-, hp⟩
  rw [h.2.1] at hp
  cases hp

theorem IsFrame.command_eq {command command' : Command} (h : IsFrame command c) :
    IsFrame command' c ↔ command = command' :=
  ⟨fun h' => h.2.2.symm.trans h'.2.2, fun he => he ▸ h⟩

theorem bit_round (number : Fd) (before : List Call) (h : readerThread createAcceptKey cfg st c = some st') :
    stompSessionIsConnected st'.connected number = true ↔ Connects number before c ∨
      stompSessionIsConnected st.connected number = true ∧ ¬ HangsUp number before c := by
  obtain ⟨hp, -, hconn⟩ | ⟨hp, -, hconn⟩ | ⟨pm, hf, -, hconn⟩ := readerThread_sessions h
  · have h1 : ¬ Connects number before c := fun hc => hp hc.1.1
    have h2 : ¬ HangsUp number before c := fun hh => hp (hh.1.elim (·.1) (·.1))
    simp [hconn, h1, h2]
  · have h1 : ¬ Connects number before c := fun hc => hc.1.not_isPurge hp
    have h2 : HangsUp number before c ↔ sessionWithoutFlags c.input.fd = number := by simp [HangsUp, hp]
    rw [hconn, stompSessionIsConnected_set, h2]
    by_cases hm : number = sessionWithoutFlags c.input.fd
    · subst hm
      simp [h1]
    · simp [h1, hm, Ne.symm hm]
  · have hconn' : st'.connected = (switchSessions st.topics st.connected c.input.fd pm).2 := congrArg Prod.snd hconn
    rw [hconn', switchSessions_bit]
    simp only [Connects, HangsUp, hf.not_isPurge, hf.command_eq, false_or]
    simp only [and_comm]

/-- One round and a subscription of a descriptor that the mask keeps. The bit of the descriptor is known
from the events before. -/
theorem subscription_round {fd : Fd} (hfd : fd.toNat ≤ 0x3FFF) (topic id : CStr) {before : List Call}
    (hbit : stompSessionIsConnected st.connected fd = true ↔ InForce fd before)
    (h : readerThread createAcceptKey cfg st c = some st') :
    ⟨fd, topic, id⟩ ∈ st'.topics ↔ Subscribes fd topic id before c ∨
      ⟨fd, topic, id⟩ ∈ st.topics ∧ ¬ Drops fd topic id before c := by
  have hmask := sessionWithoutFlags_of_le hfd
  obtain ⟨hp, htop, -⟩ | ⟨hp, htop, -⟩ | ⟨pm, hf, hpm, htop⟩ := readerThread_sessions h
  · have h1 : ¬ Subscribes fd topic id before c := fun hs => hp hs.1.1
    have h2 : ¬ Drops fd topic id before c := by
      rintro (⟨hpurge, -⟩ | ⟨-, -, hd | ⟨hu, -⟩⟩)
      · exact hp hpurge.1
      · exact hp hd.1
      · exact hp hu.1
    simp [htop, h1, h2]
  · have h1 : ¬ Subscribes fd topic id before c := fun hs => hs.1.not_isPurge hp
    have h2 : Drops fd topic id before c ↔ sessionWoCmdPurge c.input.fd = fd := by
      constructor
      · rintro (⟨-, hd⟩ | ⟨-, -, hd | ⟨hu, -⟩⟩)
        · exact hd
        · exact absurd hp hd.not_isPurge
        · exact absurd hp hu.not_isPurge
      · exact fun hd => .inl ⟨hp, hd⟩
    rw [htop, mem_pubsubRemoveClient, h2]
    simp [h1, eq_comm]
  · have htop' : st'.topics = (switchSessions st.topics st.connected c.input.fd pm).1 := congrArg Prod.fst htop
    have hnames : Names c topic id ↔ pm.topic = some topic ∧ pm.id = some id := by
      constructor
      · rintro ⟨pm', hpm', hn⟩
        rw [hpm, Option.some_inj] at hpm'
        exact hpm' ▸ hn
      · exact fun hn => ⟨pm, hpm, hn⟩
    have hup : c.input.fd = fd → (stompSessionIsConnected st.connected (sessionWithoutFlags c.input.fd) = true ↔
        InForce fd before) := by
      rintro rfl
      rw [hmask, hbit]
    rw [htop', mem_switchSessions]
    simp only [Subscribes, Drops, hf.not_isPurge, hf.command_eq, hnames, false_and, false_or]
    by_cases he : c.input.fd = fd
    · rw [hup he]
      simp only [he, true_and]
      simp only [and_assoc, and_comm]
    · simp [he, Ne.symm he]

theorem bit_rounds {calls : List Call} (h : Run (Steps (readerThread createAcceptKey cfg)) st calls st')
    {number : Fd} (h0 : stompSessionIsConnected st.connected number = false) :
    stompSessionIsConnected st'.connected number = true ↔ InForce number calls :=
  h.since (F := fun st => stompSessionIsConnected st.connected number = true) (by simp [h0])
    fun before _ _ _ _ hround => bit_round number before hround

theorem subscription_rounds {calls : List Call} (h : Run (Steps (readerThread createAcceptKey cfg)) st calls st')
    {fd : Fd} (hfd : fd.toNat ≤ 0x3FFF) (h0 : stompSessionIsConnected st.connected fd = false) {topic id : CStr}
    (hno : ⟨fd, topic, id⟩ ∉ st.topics) :
    ⟨fd, topic, id⟩ ∈ st'.topics ↔ Since (Subscribes fd topic id) (Drops fd topic id) calls :=
  h.since (F := fun st => ⟨fd, topic, id⟩ ∈ st.topics) hno fun _ _ _ _ hprior hround =>
    subscription_round hfd topic id (bit_rounds hprior h0) hround

/-- Nothing of the descriptor: no connected bit, no subscription with its number. -/
def Purged (fd : Fd) (st : StompState) : Prop :=
  stompSessionIsConnected st.connected fd = false ∧ ∀ sub ∈ st.topics, sub.sessionId ≠ fd

/-- After the purge of a writer and all messages that were queued before, the descriptor is clean exactly when
the queued messages leave no CONNECT of its number in force and no subscription of it undone. -/
theorem writer_purge_final_iff {srv : Server} {fd : Fd} {calls : List Call} (hfd : fd.toNat ≤ 0x3FFF)
    (hq : calls.map Call.input = (wCloseConnection srv fd).inputQueue)
    (h : exec (readerThread createAcceptKey cfg) st calls = some st') :
    Purged fd st' ↔ ¬ InForce fd calls.tail ∧
      ∀ topic id, ¬ Since (Subscribes fd topic id) (Drops fd topic id) calls.tail := by
  rw [wCloseConnection_inputQueue] at hq
  obtain ⟨first, backlog, rfl, hfirst, -⟩ := List.map_eq_cons_iff.1 hq
  obtain ⟨mid, hpurge, hrest⟩ := Option.bind_eq_some_iff.1 h
  have hmask := sessionWithoutFlags_of_le hfd
  have hplain : Plain fd := plain_of_le hfd
  rw [readerThread_purge createAcceptKey cfg st (by rw [hfirst]) (by rw [hfirst]; exact isPurge_setCmdPurge fd)
    (by rw [hfirst]; exact setCmdPurge_ne_poison hplain (.inl rfl)), hfirst, Option.some_inj] at hpurge
  simp only [sessionWithoutFlags_setCmdPurge, hplain.sessionWoCmdPurge_setCmdPurge, hmask] at hpurge
  have hrun := run_of_exec hrest
  have h0 : stompSessionIsConnected mid.connected fd = false := by simp [← hpurge]
  have hno : ∀ topic id, ⟨fd, topic, id⟩ ∉ mid.topics := by
    intro topic id hm
    rw [← hpurge] at hm
    exact (mem_pubsubRemoveClient.1 hm).2 rfl
  rw [Purged, List.tail_cons, ← bit_rounds hrun h0, Bool.not_eq_true]
  refine and_congr_right fun _ => ⟨fun hsub topic id => ?_, fun hsince sub hm he => ?_⟩
  · rw [← subscription_rounds hrun hfd h0 (hno topic id)]
    exact fun hm => hsub _ hm rfl
  · obtain ⟨sessionId, topic, id⟩ := sub
    obtain rfl : sessionId = fd := he
    exact hsince topic id ((subscription_rounds hrun hfd h0 (hno topic id)).1 hm)

/-- A writer drops descriptor 5 while these texts of it wait in the input queue. -/
def blockedServer (texts : List CStr) : Server :=
  { busyServer 0 5 with inputQueue := texts.map fun text => ⟨5, text, 0⟩ }

/-- The reader's rounds over the purge and the texts behind it. -/
def backlogCalls (texts : List CStr) : List Call :=
  ⟨quietEnvironment 0, ⟨sessionSetCmdPurge 5, lit "CMD", 0⟩⟩ ::
    texts.map fun text => ⟨quietEnvironment 0, ⟨5, text, 0⟩⟩

theorem backlogCalls_input (texts : List CStr) :
    (backlogCalls texts).map Call.input = (wCloseConnection (blockedServer texts) 5).inputQueue := by
  rw [wCloseConnection_inputQueue]
  simp [backlogCalls, blockedServer]

def subscribeText : CStr := lit "SUBSCRIBE\nid:1\ndestination:/a\n\n"

theorem writer_purge_final_iff_subscribe :
    ∃ st', exec (readerThread id ⟨0, 0⟩) (connectedBy 5) (backlogCalls [subscribeText]) = some st' ∧ Purged 5 st' := by
  have hsome : (exec (readerThread id ⟨0, 0⟩) (connectedBy 5) (backlogCalls [subscribeText])).isSome = true := by decide
  obtain ⟨st', h⟩ := Option.isSome_iff_exists.1 hsome
  refine ⟨st', h, (writer_purge_final_iff (by decide) (backlogCalls_input _) h).2 ⟨?_, fun topic sid => ?_⟩⟩
  · intro hforce
    have hc := (since_singleton.1 hforce).1
    exact absurd hc.2.2 (by decide)
  · intro hsince
    exact not_since_nil (since_singleton.1 hsince).2.2.2

/-- A CONNECT and a SUBSCRIBE behind the purge bring the session back. -/
theorem backlog_revives_session :
    (backlogCalls [lit "CONNECT\n\n", subscribeText]).map Call.input =
      (wCloseConnection (blockedServer [lit "CONNECT\n\n", subscribeText]) 5).inputQueue ∧
    (exec (readerThread id ⟨0, 0⟩) (connectedBy 5) (backlogCalls [lit "CONNECT\n\n", subscribeText])).map
      (fun st => (stompSessionIsConnected st.connected 5, st.topics)) = some (true, [⟨5, lit "/a", lit "1"⟩]) :=
  ⟨backlogCalls_input _, by decide⟩

end StompBroker.WriterPurge
