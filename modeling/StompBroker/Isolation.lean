import StompBroker.StompRun

/-! Isolation of connections at the STOMP layer. A descriptor is masked to fourteen bits
before it indexes the connected bitmap, so two descriptors that agree there share a session. -/
namespace StompBroker.Isolation
open CString SessionStorage StompSession Message StompParser PubSub Distribute Stomp StompRun
open TransitionSystem

/-- Messages of `a` leave the session of `b` alone and are answered to `a` only. -/
def Isolated (cfg : Config) (a b : Fd) : Prop :=
  ∀ calls st env input st' ret, Runs cfg stompStart calls st → IdOf a input.fd →
    stompProcess cfg env st input = some (st', ret) →
    stompSessionIsConnected st'.connected (sessionWithoutFlags b) =
      stompSessionIsConnected st.connected (sessionWithoutFlags b) ∧
    st'.topics.filter (ownedBy b) = st.topics.filter (ownedBy b) ∧
    ∃ frames, st'.output = st.output ++ frames ∧
      ∀ frame ∈ frames, frame.isMessage = false → sessionWithoutFlags frame.fd = a

theorem sessionChange_other {a b : Fd} {st : StompState} {input : MessageWithTimestamp}
    {topics : Topics} {connected : SessionConnected} (ha : a.toNat ≤ 0x3FFF) (hb : Plain b)
    (hne : a ≠ b) (hmask : sessionWithoutFlags b ≠ a) (hid : IdOf a input.fd)
    (h : SessionChange st input topics connected) :
    stompSessionIsConnected connected (sessionWithoutFlags b) =
      stompSessionIsConnected st.connected (sessionWithoutFlags b) ∧
    topics.filter (ownedBy b) = st.topics.filter (ownedBy b) := by
  have hpa : Plain a := plain_of_le ha
  have hma : sessionWithoutFlags input.fd = a :=
    hid.sessionWithoutFlags_eq.trans (sessionWithoutFlags_of_le ha)
  have hset : ∀ v, stompSessionIsConnected
      (stompSessionSetConnected st.connected (sessionWithoutFlags input.fd) v)
        (sessionWithoutFlags b) = stompSessionIsConnected st.connected (sessionWithoutFlags b) :=
    fun v => stompSessionIsConnected_set_of_ne _ (by rw [hma]; exact hmask) v
  have hown : ∀ id, id = a ∨ id = sessionSetEncoded a →
      ∀ sub, ownedBy b sub = true → sub.sessionId ≠ id := by
    rintro id (rfl | rfl) sub hs
    · exact (ownedBy_ne hpa hb hne hs).1
    · exact (ownedBy_ne hpa hb hne hs).2
  cases h with
  | keep => exact ⟨rfl, rfl⟩
  | purge => exact ⟨hset 0, filter_pubsubRemoveClient (hown _ (hid.sessionWoCmdPurge_cases ha))⟩
  | connect => exact ⟨hset 1, rfl⟩
  | disconnect hp =>
    exact ⟨hset 0, filter_pubsubRemoveClient (hown _ (hid.eq_or_of_not_purge hp))⟩
  | subscribe _ _ hp =>
    exact ⟨rfl, filter_pubsubSubscribe (hown _ (hid.eq_or_of_not_purge hp))⟩
  | unsubscribe _ _ hp =>
    exact ⟨rfl, filter_pubsubUnsubscribe (hown _ (hid.eq_or_of_not_purge hp))⟩

/-- A CONNECT on the fresh broker shows both the reply address and the shared bit. -/
theorem Isolated.mask {cfg : Config} {a b : Fd} (hpa : Plain a) (h : Isolated cfg a b) :
    a.toNat ≤ fdMask.toNat ∧ sessionWithoutFlags b ≠ a := by
  obtain ⟨hcon, -, frames, hout, hreply⟩ :=
    h [] stompStart (quietEnvironment 0) ⟨a, lit "CONNECT\n\n", 0⟩ _ _ (.nil _) .raw
      (stompProcess_connect (by simp [isPurge_eq, hpa.sessionIsCmdPurge_eq])
        (stompSessionIsConnected_init _))
  have hself : sessionWithoutFlags a = a := by
    have hf : messageConnected a (sessionWithoutFlags a) ∈ frames := by
      have he : [messageConnected a (sessionWithoutFlags a)] = frames := by simpa using hout
      simp [← he]
    simpa using hreply _ hf rfl
  refine ⟨sessionWithoutFlags_eq_iff.mp hself, ?_⟩
  intro hb
  simp [hself, hb, stompStart, stompSessionIsConnected_init] at hcon

/-- Two admitted descriptors are isolated exactly when the sender fits the fourteen-bit mask
and the other descriptor does not share its masked number. -/
theorem isolated_iff (cfg : Config) {a b : Fd} (ha : a.toNat ≤ maxNumberOfConnections)
    (hb : b.toNat ≤ maxNumberOfConnections) (hne : a ≠ b) :
    Isolated cfg a b ↔ a.toNat ≤ fdMask.toNat ∧ sessionWithoutFlags b ≠ a := by
  refine ⟨Isolated.mask (plain_of_admitted ha), ?_⟩
  rintro ⟨hfit, hmask⟩ calls st env input st' ret - hid hstep
  obtain ⟨hch, frames, hout, horigin⟩ := stompProcess_spec hstep
  obtain ⟨hcon, htop⟩ := sessionChange_other hfit (plain_of_admitted hb) hne hmask hid hch
  refine ⟨hcon, htop, frames, hout, ?_⟩
  intro frame hf hm
  cases horigin frame hf with
  | reply _ hfd =>
    rw [hfd]
    exact hid.sessionWithoutFlags_eq.trans (sessionWithoutFlags_of_le hfit)
  | stale _ _ _ hmsg _ => simp [hm] at hmsg
  | message _ _ _ _ hmsg _ => simp [hm] at hmsg

theorem isolated_five_six : Isolated ⟨0, 1000000⟩ 5 6 :=
  (isolated_iff _ (by decide) (by decide) (by decide)).mpr ⟨by decide, by decide⟩

/-- Descriptor 16385 is admitted, but it shares the session of descriptor 1. -/
theorem not_isolated_alias : ¬ Isolated ⟨0, 1000000⟩ 16385 1 := by
  intro h
  exact absurd (h.mask (plain_of_admitted (by decide))).1 (by decide)

end StompBroker.Isolation
