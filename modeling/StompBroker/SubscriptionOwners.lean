import StompBroker.StompRun

/-! Every subscription belongs to a connected session. The subscription list is keyed by
ids with flags and the connected bitmap by masked descriptors; the two stay in step as long
as a session ends under the id its subscriptions were made with. -/
namespace StompBroker.SubscriptionOwners
open CString SessionStorage StompSession Message StompParser PubSub Distribute Stomp StompRun
open TransitionSystem

def OwnersConnected (st : StompState) : Prop :=
  ∀ sub ∈ st.topics, stompSessionIsConnected st.connected (sessionWithoutFlags sub.sessionId) = true

def IsFrame (f : Fd) (cmd : Command) (c : Call) : Prop :=
  sessionWithoutFlags c.input.fd = f ∧ isPurge c.input.fd = false ∧
    parseCommand c.input.content = cmd

/-- A call that ends the session of its sender: a purge or an accepted DISCONNECT. -/
def Ends (st : StompState) (c : Call) : Prop :=
  isPurge c.input.fd = true ∨ IsFrame (sessionWithoutFlags c.input.fd) .disconnect c ∧
    stompSessionIsConnected st.connected (sessionWithoutFlags c.input.fd) = true

def removedId (c : Call) : Fd :=
  if isPurge c.input.fd then sessionWoCmdPurge c.input.fd else c.input.fd

/-- A session ends under the id that all its subscriptions carry. -/
def EndsUniformly (st : StompState) (c : Call) : Prop :=
  Ends st c → ∀ sub ∈ st.topics,
    sessionWithoutFlags sub.sessionId = sessionWithoutFlags c.input.fd → sub.sessionId = removedId c

instance (f : Fd) (cmd : Command) (c : Call) : Decidable (IsFrame f cmd c) :=
  inferInstanceAs (Decidable (_ ∧ _ ∧ _))

instance (st : StompState) (c : Call) : Decidable (Ends st c) :=
  inferInstanceAs (Decidable (_ ∨ _ ∧ _))

instance (st : StompState) (c : Call) : Decidable (EndsUniformly st c) :=
  inferInstanceAs (Decidable (_ → ∀ sub ∈ st.topics, _ → _))

instance : DecidablePred OwnersConnected := fun st =>
  inferInstanceAs (Decidable (∀ sub ∈ st.topics, _))

/-- Clearing a session keeps the owners connected when nothing of it is left behind. -/
theorem ownersConnected_remove {st : StompState} {id removed : Fd} (h : OwnersConnected st)
    (hu : ∀ sub ∈ st.topics, sessionWithoutFlags sub.sessionId = sessionWithoutFlags id →
      sub.sessionId = removed) :
    ∀ sub ∈ pubsubRemoveClient st.topics removed,
      stompSessionIsConnected (stompSessionSetConnected st.connected (sessionWithoutFlags id) 0)
        (sessionWithoutFlags sub.sessionId) = true := by
  intro sub hs
  obtain ⟨hmem, hne⟩ := mem_pubsubRemoveClient.mp hs
  have hother : sessionWithoutFlags sub.sessionId ≠ sessionWithoutFlags id :=
    fun he => hne (hu sub hmem he)
  rw [stompSessionIsConnected_set_of_ne _ hother]
  exact h sub hmem

theorem ownersConnected_step {cfg : Config} {st st' : StompState} {c : Call}
    (h : OwnersConnected st) (hu : EndsUniformly st c) (hs : stompStep cfg st c = some st') :
    OwnersConnected st' := by
  obtain ⟨hch, -⟩ := stompStep_spec hs
  unfold OwnersConnected
  generalize st'.topics = topics at hch
  generalize st'.connected = connected at hch
  cases hch with
  | keep => exact h
  | purge hp =>
    apply ownersConnected_remove h
    simpa [removedId, hp] using hu (.inl hp)
  | connect =>
    intro sub hm
    rw [stompSessionIsConnected_set]
    split_ifs
    · rfl
    · exact h sub hm
  | disconnect hp hc hn =>
    apply ownersConnected_remove h
    simpa [removedId, hp] using hu (.inr ⟨⟨rfl, hp, hc⟩, hn⟩)
  | subscribe topic id hp hc hn =>
    intro sub hm
    rcases List.mem_append.mp hm with hm | hm
    · exact h sub hm
    · rw [List.mem_singleton] at hm
      rw [hm]
      exact hn
  | unsubscribe =>
    intro sub hm
    exact h sub (mem_of_mem_pubsubUnsubscribe hm)

def ConnectThenSubscribe (f : Fd) (calls : List Call) : Prop :=
  ∃ before c mid c' after, calls = before ++ c :: mid ++ c' :: after ∧
    IsFrame f .connect c ∧ IsFrame f .subscribe c'

theorem ConnectThenSubscribe.snoc {f : Fd} {calls : List Call} (h : ConnectThenSubscribe f calls)
    (c : Call) : ConnectThenSubscribe f (calls ++ [c]) := by
  obtain ⟨before, c₁, mid, c₂, after, rfl, h₁, h₂⟩ := h
  exact ⟨before, c₁, mid, c₂, after ++ [c], by simp, h₁, h₂⟩

theorem connectThenSubscribe_of_mem {f : Fd} {calls : List Call} {c c' : Call} (hc : c ∈ calls)
    (h : IsFrame f .connect c) (h' : IsFrame f .subscribe c') :
    ConnectThenSubscribe f (calls ++ [c']) := by
  obtain ⟨before, mid, rfl⟩ := List.append_of_mem hc
  exact ⟨before, c, mid, c', [], by simp, h, h'⟩

/-- A session without subscriptions; it has connected since if it is connected now. -/
structure Quiet (f : Fd) (calls : List Call) (st : StompState) : Prop where
  noSubscription : ∀ sub ∈ st.topics, sessionWithoutFlags sub.sessionId ≠ f
  connected : stompSessionIsConnected st.connected f = true → ∃ c ∈ calls, IsFrame f .connect c

theorem Quiet.subscribe_ne {f : Fd} {calls : List Call} {st : StompState} {c : Call}
    (h : Quiet f calls st) (hn : ¬ ConnectThenSubscribe f (calls ++ [c]))
    (hp : isPurge c.input.fd = false) (hc : parseCommand c.input.content = .subscribe)
    (hcon : stompSessionIsConnected st.connected (sessionWithoutFlags c.input.fd) = true) :
    sessionWithoutFlags c.input.fd ≠ f := by
  intro he
  obtain ⟨c₀, hm, hc₀⟩ := h.connected (he ▸ hcon)
  exact hn (connectThenSubscribe_of_mem hm hc₀ ⟨he, hp, hc⟩)

theorem Quiet.noSubscription_of_change {f : Fd} {calls : List Call} {st : StompState} {c : Call}
    {topics : Topics} {connected : SessionConnected} (h : Quiet f calls st)
    (hn : ¬ ConnectThenSubscribe f (calls ++ [c]))
    (hch : SessionChange st c.input topics connected) :
    ∀ sub ∈ topics, sessionWithoutFlags sub.sessionId ≠ f := by
  intro sub hm
  cases hch with
  | keep => exact h.noSubscription sub hm
  | purge => exact h.noSubscription sub (mem_pubsubRemoveClient.mp hm).1
  | connect => exact h.noSubscription sub hm
  | disconnect => exact h.noSubscription sub (mem_pubsubRemoveClient.mp hm).1
  | subscribe topic id hp hc hcon =>
    rcases List.mem_append.mp hm with hm | hm
    · exact h.noSubscription sub hm
    · rw [List.mem_singleton] at hm
      rw [hm]
      exact h.subscribe_ne hn hp hc hcon
  | unsubscribe => exact h.noSubscription sub (mem_of_mem_pubsubUnsubscribe hm)

theorem connected_of_change {f : Fd} {st : StompState} {c : Call} {topics : Topics}
    {connected : SessionConnected} (hch : SessionChange st c.input topics connected)
    (hcon : stompSessionIsConnected connected f = true) :
    stompSessionIsConnected st.connected f = true ∨ IsFrame f .connect c := by
  have hclear : stompSessionIsConnected
      (stompSessionSetConnected st.connected (sessionWithoutFlags c.input.fd) 0) f = true →
      stompSessionIsConnected st.connected f = true := by
    rw [stompSessionIsConnected_set]
    split_ifs <;> simp
  cases hch with
  | keep => exact .inl hcon
  | purge => exact .inl (hclear hcon)
  | connect hp hc _ =>
    by_cases he : sessionWithoutFlags c.input.fd = f
    · exact .inr ⟨he, hp, hc⟩
    · rw [stompSessionIsConnected_set_of_ne _ (fun he' => he he'.symm)] at hcon
      exact .inl hcon
  | disconnect => exact .inl (hclear hcon)
  | subscribe => exact .inl hcon
  | unsubscribe => exact .inl hcon

theorem Quiet.step {cfg : Config} {f : Fd} {calls : List Call} {st st' : StompState} {c : Call}
    (h : Quiet f calls st) (hn : ¬ ConnectThenSubscribe f (calls ++ [c]))
    (hs : stompStep cfg st c = some st') :
    Quiet f (calls ++ [c]) st' ∧ ∃ frames, st'.output = st.output ++ frames ∧
      ∀ frame ∈ frames, frame.isMessage = true → sessionWithoutFlags frame.fd ≠ f := by
  obtain ⟨hch, frames, hout, horigin⟩ := stompStep_spec hs
  refine ⟨⟨h.noSubscription_of_change hn hch, fun hcon => ?_⟩, frames, hout, ?_⟩
  · rcases connected_of_change hch hcon with hcon | hc
    · obtain ⟨c₀, hm, hc₀⟩ := h.connected hcon
      exact ⟨c₀, by simp [hm], hc₀⟩
    · exact ⟨c, by simp, hc⟩
  · intro frame hf hm
    cases horigin frame hf with
    | reply hno _ => simp [hm] at hno
    | stale hp hc hcon _ hfd =>
      rw [hfd]
      exact h.subscribe_ne hn hp hc hcon
    | message sub hs _ _ _ hfd =>
      rw [hfd]
      exact h.noSubscription sub hs

/-- No MESSAGE reaches a quiet session before it has connected and subscribed again. -/
theorem Quiet.run {cfg : Config} {f : Fd} {calls : List Call} {st st' : StompState}
    (h : Quiet f [] st) (hr : Runs cfg st calls st') (hn : ¬ ConnectThenSubscribe f calls) :
    ∃ frames, st'.output = st.output ++ frames ∧
      ∀ frame ∈ frames, frame.isMessage = true → sessionWithoutFlags frame.fd ≠ f := by
  have key := hr.history (I := fun calls st' => ¬ ConnectThenSubscribe f calls →
    Quiet f calls st' ∧ ∃ frames, st'.output = st.output ++ frames ∧
      ∀ frame ∈ frames, frame.isMessage = true → sessionWithoutFlags frame.fd ≠ f)
    (fun _ => ⟨h, [], by simp, by simp⟩) ?_
  · exact (key hn).2
  · intro calls s c t ih hs hno
    obtain ⟨hq, frames, hout, hall⟩ := ih (fun hc => hno (hc.snoc c))
    obtain ⟨hq', frames', hout', hall'⟩ := hq.step hno hs
    refine ⟨hq', frames ++ frames', by simp [hout', hout], ?_⟩
    intro frame hf hm
    rcases List.mem_append.mp hf with hf | hf
    · exact hall frame hf hm
    · exact hall' frame hf hm

theorem stompStep_ends {cfg : Config} {st st' : StompState} {c : Call} (he : Ends st c)
    (hs : stompStep cfg st c = some st') :
    st'.topics = pubsubRemoveClient st.topics (removedId c) ∧
    st'.connected = stompSessionSetConnected st.connected (sessionWithoutFlags c.input.fd) 0 := by
  obtain ⟨⟨st'', ret⟩, hp, rfl⟩ := Option.map_eq_some_iff.mp hs
  rcases he with he | ⟨⟨-, he, hc⟩, hn⟩
  · rw [stompProcess_purge he, Option.some.injEq, Prod.mk.injEq] at hp
    simp [← hp.1, removedId, he]
  · simpa [removedId, he] using stompProcess_disconnect he hc hn hp

/-- After a session has ended under the id of its subscriptions it is quiet. -/
theorem quiet_of_ends {cfg : Config} {st st' : StompState} {c : Call} (hu : EndsUniformly st c)
    (he : Ends st c) (hs : stompStep cfg st c = some st') :
    Quiet (sessionWithoutFlags c.input.fd) [] st' := by
  obtain ⟨htopics, hconnected⟩ := stompStep_ends he hs
  constructor
  · intro sub hm heq
    rw [htopics, mem_pubsubRemoveClient] at hm
    exact hm.2 (hu he sub hm.1 heq)
  · intro hcon
    simp [hconnected] at hcon

/-- In every run whose sessions end under the id of their subscriptions, every subscription
has a connected owner, and a session that has ended receives no MESSAGE until it has
connected and subscribed again. -/
theorem owners_connected_of_uniform {cfg : Config} {calls : List Call} {st : StompState}
    (h : Run (Guarded EndsUniformly (Steps (stompStep cfg))) stompStart calls st) :
    OwnersConnected st ∧
    ∀ c st₁ later st₂, EndsUniformly st c → Ends st c → stompStep cfg st c = some st₁ →
      Run (Guarded EndsUniformly (Steps (stompStep cfg))) st₁ later st₂ →
      ¬ ConnectThenSubscribe (sessionWithoutFlags c.input.fd) later →
      ∃ frames, st₂.output = st₁.output ++ frames ∧ ∀ frame ∈ frames, frame.isMessage = true →
        sessionWithoutFlags frame.fd ≠ sessionWithoutFlags c.input.fd := by
  have hown : OwnersConnected st := h.invariant (by simp [OwnersConnected, stompStart, pubsubInit])
    fun s c t hs hstep => ownersConnected_step hs hstep.1 hstep.2
  refine ⟨hown, ?_⟩
  intro c st₁ later st₂ hu he hs hrun hn
  exact (quiet_of_ends hu he hs).run (hrun.mono fun _ _ _ hg => hg.2) hn

def quietCall (fd : Fd) (content : String) : Call :=
  ⟨⟨0, [colon], 0, 0, 0, 0, 0, 0⟩, ⟨fd, lit content, 0⟩⟩

theorem owners_connected_raw_session :
    ∃ st, Run (Guarded EndsUniformly (Steps (stompStep ⟨0, 1000000⟩))) stompStart
      [quietCall 5 "CONNECT\n\n", quietCall 5 "SUBSCRIBE\nid:1\ndestination:/a\n\n",
        quietCall 5 "DISCONNECT\n\n"] st ∧ OwnersConnected st := by
  obtain ⟨st, hrun, -⟩ : ∃ st, Run (Guarded EndsUniformly (Steps (stompStep ⟨0, 1000000⟩)))
      stompStart [quietCall 5 "CONNECT\n\n", quietCall 5 "SUBSCRIBE\nid:1\ndestination:/a\n\n",
        quietCall 5 "DISCONNECT\n\n"] st ∧ st.topics = [] :=
    exists_guarded_run_of_exec (by decide)
  exact ⟨st, hrun, (owners_connected_of_uniform hrun).1⟩

/-- A session that subscribes raw and disconnects inside a websocket frame leaves its
subscription behind without a connected owner. -/
theorem mixed_session_orphan :
    ∃ st, Runs ⟨0, 1000000⟩ stompStart
      [quietCall 5 "CONNECT\n\n", quietCall 5 "SUBSCRIBE\nid:1\ndestination:/a\n\n",
        quietCall (sessionSetEncoded 5) "DISCONNECT\n\n"] st ∧ ¬ OwnersConnected st :=
  exists_run_of_exec (by decide)

end StompBroker.SubscriptionOwners
