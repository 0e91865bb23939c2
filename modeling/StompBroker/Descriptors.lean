import StompBroker.EpollLoop

/-! The life of a descriptor, from the `accept` that returns it to its `close`, and the session
table beside the connections over whole runs. -/
namespace StompBroker.Descriptors
open CString SessionStorage AcceptEpoll EpollLoop TransitionSystem

/-- What became of a descriptor since `accept` returned it. -/
structure Life where
  received : Bool
  ended : Bool
  closes : ℕ
  deriving DecidableEq, Repr

/-- The server with the last life of every descriptor and the lives before. -/
structure Sockets where
  srv : Server
  current : Fd → Option Life
  past : List Life

inductive SocketEvent
  | accept (fd : Fd)
  | use (e : Event)

def Life.after (life : Life) (fd : Fd) (e : Event) (closed : List Fd) : Life :=
  { received := life.received || (e.fd == fd && e.isData)
    ended := life.ended || (e.fd == fd && e.isEnd)
    closes := life.closes + closed.count fd }

def socketStep (limit : ℕ) (s : Sockets) : SocketEvent → Option Sockets
  | .accept fd => some { s with
      current := Function.update s.current fd (some ⟨false, false, 0⟩)
      past := s.past ++ (s.current fd).toList }
  | .use e => (loopStep limit s.srv e).map fun srv => { s with
      srv := srv
      current := fun fd => (s.current fd).map (·.after fd e (newlyClosed s.srv srv)) }

def socketsStart : Sockets := ⟨serverStart, fun _ => none, []⟩

/-- What the kernel promises, and that the session table is not full: `accept` returns a descriptor
that is not open, and bytes come only from an open one. A descriptor with an end of the stream has
left the epoll set, so no bytes follow. -/
def Allowed (s : Sockets) : SocketEvent → Prop
  | .accept fd => 0 < fd.toInt ∧ (s.current fd).all (fun life => 1 ≤ life.closes) = true
  | .use e => ¬ Refused s.srv e ∧
      (e.isData = true → (s.current e.fd).any (fun life => life.closes = 0 ∧ life.ended = false) = true)

instance (s : Sockets) : (e : SocketEvent) → Decidable (Allowed s e)
  | .accept _ => inferInstanceAs (Decidable (_ ∧ _))
  | .use _ => inferInstanceAs (Decidable (_ ∧ _))

structure Life.Tracked (inTable : Prop) (life : Life) : Prop where
  once : life.closes ≤ 1
  table : inTable ↔ life.received = true ∧ life.closes = 0
  closed : life.closes = 1 → life.received = true
  ended : life.ended = true → ¬ inTable

def Life.Settled (life : Life) : Prop := life.closes ≤ 1 ∧ (life.closes = 1 ↔ life.received = true)

structure Kept (s : Sockets) : Prop where
  past : ∀ life ∈ s.past, life.ended = true → life.Settled
  tracked : ∀ fd life, s.current fd = some life → fd ≠ 0 ∧ life.Tracked (InTable s.srv fd)
  untracked : ∀ fd, s.current fd = none → ¬ InTable s.srv fd

variable {limit : ℕ} {s t : Sockets}

theorem Life.Tracked.settled {inTable : Prop} {life : Life} (h : life.Tracked inTable)
    (hend : life.ended = true) : life.Settled := by
  refine ⟨h.once, h.closed, fun hrec => ?_⟩
  have hout := h.ended hend
  rw [h.table] at hout
  have := h.once
  by_contra hone
  exact hout ⟨hrec, by omega⟩

theorem kept_start : Kept socketsStart :=
  ⟨by simp [socketsStart], by simp [socketsStart], fun _ _ h => h rfl⟩

theorem kept_accept {fd : Fd} (hs : Kept s) (hfd : 0 < fd.toInt)
    (hfree : (s.current fd).all (fun life => 1 ≤ life.closes) = true)
    (h : socketStep limit s (.accept fd) = some t) : Kept t := by
  obtain rfl := Option.some.inj h
  have hout : ¬ InTable s.srv fd := by
    cases hc : s.current fd with
    | none => exact hs.untracked fd hc
    | some life =>
      have hcl : 1 ≤ life.closes := by simpa [hc] using hfree
      rw [(hs.tracked fd life hc).2.table]
      omega
  refine ⟨?_, ?_, ?_⟩
  · intro life hl
    rcases List.mem_append.mp hl with hl | hl
    · exact hs.past life hl
    · exact (hs.tracked fd life (by simpa using hl)).2.settled
  · intro g life hg
    by_cases hgf : g = fd
    · subst hgf
      obtain rfl := Option.some.inj (hg.symm.trans (Function.update_self _ _ _))
      refine ⟨?_, by simp, by simpa using hout, by simp, by simp⟩
      rintro rfl
      exact absurd hfd (by decide)
    · exact hs.tracked g life (by simpa [hgf] using hg)
  · intro g hg
    by_cases hgf : g = fd
    · simp [hgf] at hg
    · exact hs.untracked g (by simpa [hgf] using hg)

theorem tracked_own {e : Event} {srv' : Server} {life : Life} (ho : Outcome e s.srv srv')
    (hdata : e.isData = true → life.closes = 0 ∧ life.ended = false)
    (hl : life.Tracked (InTable s.srv e.fd)) :
    (life.after e.fd e (newlyClosed s.srv srv')).Tracked (InTable srv' e.fd) := by
  have hdataEnd : e.isData = true → e.isEnd = false := by
    cases e <;> simp [Event.isData, Event.isEnd]
  obtain ⟨honce, htable, hclosed, hended⟩ := hl
  cases ho with
  | stays hd hcl hin =>
    obtain ⟨hc0, he0⟩ := hdata hd
    have hnew := newlyClosed_of_same hcl
    refine ⟨?_, ?_, ?_, ?_⟩ <;> simp [Life.after, hnew, hd, hdataEnd hd, hc0, he0, hin]
  | absent hd hno hcl hout =>
    have hnew := newlyClosed_of_same hcl
    refine ⟨?_, ?_, ?_, fun _ => hout⟩
    · simpa [Life.after, hnew] using honce
    · simpa [Life.after, hnew, hd, hout] using htable.not.1 hno
    · simpa [Life.after, hnew, hd] using hclosed
  | closes hb hcl hout =>
    have hnew := newlyClosed_of_append hcl
    have hlife : life.closes = 0 ∧ (life.received = true ∨ e.isData = true) := by
      rcases hb with hin | hd
      · exact ⟨(htable.1 hin).2, .inl (htable.1 hin).1⟩
      · exact ⟨(hdata hd).1, .inr hd⟩
    refine ⟨?_, ?_, ?_, fun _ => hout⟩ <;> simp [Life.after, hnew, hlife, hout]

theorem after_other {e : Event} {srv' : Server} {fd : Fd} (hne : fd ≠ e.fd) (ho : Outcome e s.srv srv')
    (life : Life) : life.after fd e (newlyClosed s.srv srv') = life := by
  have hcount : (newlyClosed s.srv srv').count fd = 0 := by
    cases ho with
    | stays _ hcl _ => simp [newlyClosed_of_same hcl]
    | absent _ _ hcl _ => simp [newlyClosed_of_same hcl]
    | closes _ hcl _ => simp [newlyClosed_of_append hcl, hne.symm]
  have hother : (e.fd == fd) = false := beq_false_of_ne hne.symm
  simp [Life.after, hcount, hother]

theorem kept_use {e : Event} (hs : Kept s) (href : ¬ Refused s.srv e)
    (hdata : e.isData = true → (s.current e.fd).any (fun life => life.closes = 0 ∧ life.ended = false) = true)
    (h : socketStep limit s (.use e) = some t) : Kept t := by
  obtain ⟨srv', hstep, rfl⟩ := Option.map_eq_some_iff.mp h
  have h0 : e.isData = true → e.fd ≠ 0 := by
    intro hd
    cases hl : s.current e.fd with
    | none => exact absurd (hdata hd) (by simp [hl])
    | some life => exact (hs.tracked e.fd life hl).1
  obtain ⟨hothers, ho⟩ := step_outcome hstep href h0
  refine ⟨hs.past, ?_, ?_⟩
  · intro fd life' hl'
    obtain ⟨life, hl, rfl⟩ := Option.map_eq_some_iff.mp hl'
    obtain ⟨hne0, htracked⟩ := hs.tracked fd life hl
    refine ⟨hne0, ?_⟩
    by_cases hfd : fd = e.fd
    · subst hfd
      exact tracked_own ho (fun hd => by simpa [hl] using hdata hd) htracked
    · rw [after_other hfd ho]
      simpa [InTable, hothers fd hfd] using htracked
  · intro fd hnone
    have hc : s.current fd = none := by simpa using hnone
    by_cases hfd : fd = e.fd
    · subst hfd
      cases ho with
      | stays hd _ _ => exact absurd (hdata hd) (by simp [hc])
      | absent _ _ _ hout => exact hout
      | closes _ _ hout => exact hout
    · simpa [InTable, hothers fd hfd] using hs.untracked fd hc

/-- After its end of stream, a descriptor has been closed exactly once if bytes had been received on
it, and never otherwise. -/
theorem closed_once_iff_received {events : List SocketEvent}
    (h : Run (Guarded Allowed (Steps (socketStep limit))) socketsStart events s) {life : Life}
    (hl : life ∈ s.past ∨ ∃ fd, s.current fd = some life) (hend : life.ended = true) :
    life.closes ≤ 1 ∧ (life.closes = 1 ↔ life.received = true) := by
  have hs : Kept s := by
    refine h.invariant kept_start ?_
    rintro s e t hs ⟨hallowed, hstep⟩
    cases e with
    | accept fd => exact kept_accept hs hallowed.1 hallowed.2 hstep
    | use e => exact kept_use hs hallowed.1 hallowed.2 hstep
  rcases hl with hl | ⟨fd, hl⟩
  · exact hs.past life hl hend
  · exact (hs.tracked fd life hl).2.settled hend

theorem closed_once_iff_received_send : ∃ s, Run (Guarded Allowed (Steps (socketStep 10))) socketsStart
      [.accept 5, .use (.read 0 5 (lit "SEND") 4), .use (.read 0 5 [] 0), .accept 5] s ∧
    ∃ life ∈ s.past, life.ended = true ∧ life.received = true ∧ life.closes = 1 := by
  have hexec : (exec (fun s e => if Allowed s e then socketStep 10 s e else none) socketsStart
      [.accept 5, .use (.read 0 5 (lit "SEND") 4), .use (.read 0 5 [] 0), .accept 5]).map
      (fun s => decide (∃ life ∈ s.past, life.ended = true ∧ life.received = true)) = some true := by
    decide +kernel
  obtain ⟨s, hrun, life, hl, hend, hrec⟩ := exists_guarded_run_of_exec hexec
  exact ⟨s, hrun, life, hl, hend, hrec, (closed_once_iff_received hrun (.inl hl) hend).2.2 hrec⟩

/-- A client that leaves without a byte. -/
theorem silent_client_never_closed : ∃ s, Run (Guarded Allowed (Steps (socketStep 10))) socketsStart
      [.accept 5, .use (.read 0 5 [] 0)] s ∧
    s.current 5 = some ⟨false, true, 0⟩ ∧ s.srv.closed = [] := by
  have hexec : (exec (fun s e => if Allowed s e then socketStep 10 s e else none) socketsStart
      [.accept 5, .use (.read 0 5 [] 0)]).map
      (fun s => decide (s.current 5 = some ⟨false, true, 0⟩ ∧ s.srv.closed = [])) = some true := by
    decide +kernel
  exact exists_guarded_run_of_exec hexec

/-- The server with the connections that have sent data and are still open. -/
structure Connections where
  srv : Server
  live : Fd → Bool

def connectionStep (limit : ℕ) (s : Connections) (e : Event) : Option Connections :=
  (loopStep limit s.srv e).map fun srv => ⟨srv, fun fd =>
    !(newlyClosed s.srv srv).contains fd && (s.live fd || (e.fd == fd && e.isData))⟩

def connectionsStart : Connections := ⟨serverStart, fun _ => false⟩

def InRange (fd : Fd) : Prop := 1 ≤ fd.toInt ∧ fd.toInt ≤ maxNumberOfConnections

def InStep (s : Connections) : Prop := ∀ fd, InRange fd → (InTable s.srv fd ↔ s.live fd = true)

/-- A read while the session table holds as many clients as it may. -/
def AtLimit (s : Connections) (e : Event) : Prop :=
  e.isData = true ∧ s.srv.storage.numberOfClients ≥ maxNumberOfConnections

instance (fd : Fd) : Decidable (InRange fd) := inferInstanceAs (Decidable (_ ∧ _))

instance (s : Connections) (e : Event) : Decidable (AtLimit s e) := inferInstanceAs (Decidable (_ ∧ _))

def registered (storage : Storage) : Finset ℕ :=
  (Finset.Icc 1 maxNumberOfConnections).filter (storage.clients · ≠ 0)

structure Counted (storage : Storage) : Prop where
  number : storage.numberOfClients = (registered storage).card
  entries : ∀ i, storage.clients i = 0 ∨ 0 < (storage.clients i).toInt

section Counting
variable {storage storage' : Storage} {fd : Fd}

theorem InRange.mem (h : InRange fd) : fd.toNat ∈ Finset.Icc 1 maxNumberOfConnections := by
  obtain ⟨hone, hmax⟩ := h
  rw [BitVec.toInt_eq_toNat_cond] at hone hmax
  rw [Finset.mem_Icc]
  split_ifs at hone hmax <;> omega

theorem InRange.ne_zero (h : InRange fd) : fd ≠ 0 := by
  rintro rfl
  exact absurd h.1 (by decide)

theorem InRange.encoded_pos (h : InRange fd) : 0 < (sessionSetEncoded fd).toInt := by
  have hplain : Plain fd := plain_of_admitted (Finset.mem_Icc.1 h.mem).2
  have hlt : (sessionSetEncoded fd).toNat < 2 ^ 20 := by
    rw [sessionSetEncoded, BitVec.toNat_or]
    exact Nat.or_lt_two_pow (hplain.trans (by decide)) (by decide)
  have hne : (sessionSetEncoded fd).toNat ≠ 0 := fun hz =>
    sessionSetEncoded_ne_zero fd (BitVec.eq_of_toNat_eq hz)
  rw [BitVec.toInt_eq_toNat_of_lt (by omega)]
  omega

theorem mem_registered {i : ℕ} :
    i ∈ registered storage ↔ i ∈ Finset.Icc 1 maxNumberOfConnections ∧ storage.clients i ≠ 0 :=
  Finset.mem_filter

theorem mem_registered_iff (h : InRange fd) : fd.toNat ∈ registered storage ↔ sessionStorageGet storage fd ≠ 0 :=
  mem_registered.trans (and_iff_right h.mem)

theorem registered_insert {entry : Fd} (h : InRange fd) (hentry : entry ≠ 0)
    (hc : storage'.clients = Function.update storage.clients fd.toNat entry) :
    registered storage' = insert fd.toNat (registered storage) := by
  ext i
  rw [Finset.mem_insert, mem_registered, mem_registered, hc]
  by_cases hi : i = fd.toNat
  · subst hi
    rw [Function.update_self]
    exact iff_of_true ⟨h.mem, hentry⟩ (.inl rfl)
  · rw [Function.update_of_ne hi, or_iff_right hi]

theorem remove_clients (storage : Storage) (fd : Fd) :
    (sessionStorageRemove storage fd).clients = Function.update storage.clients fd.toNat 0 := rfl

theorem registered_erase (storage : Storage) (fd : Fd) :
    registered (sessionStorageRemove storage fd) = (registered storage).erase fd.toNat := by
  ext i
  rw [Finset.mem_erase, mem_registered, mem_registered, remove_clients]
  by_cases hi : i = fd.toNat
  · subst hi
    rw [Function.update_self]
    exact iff_of_false (fun h => h.2 rfl) (fun h => h.1 rfl)
  · rw [Function.update_of_ne hi, and_iff_right hi]

theorem Counted.admitted (h : Counted storage) (hr : InRange fd) (readBuffer : List UInt8)
    (hfull : ¬ (storage.numberOfClients ≥ maxNumberOfConnections ∨ fd.toInt > maxNumberOfConnections)) :
    Counted (admittedStorage storage fd readBuffer) := by
  obtain ⟨entry, hentry, hclients, hnumber⟩ := admittedStorage_spec readBuffer hfull
  have hpos : 0 < entry.toInt := by
    rcases hentry with rfl | rfl | ⟨-, hpos⟩
    · exact hr.1
    · exact hr.encoded_pos
    · exact hpos
  have hne : entry ≠ 0 := by
    rintro rfl
    exact absurd hpos (by decide)
  refine ⟨?_, fun i => ?_⟩
  · rw [hnumber, registered_insert hr hne hclients, h.number]
    by_cases hin : sessionStorageGet storage fd = 0
    · have hout : fd.toNat ∉ registered storage := by simpa [mem_registered_iff hr] using hin
      rw [Finset.card_insert_of_notMem hout, hin, if_neg (by decide)]
      push_cast
      rfl
    · have hget : 0 < (sessionStorageGet storage fd).toInt := (h.entries fd.toNat).resolve_left hin
      rw [Finset.insert_eq_of_mem ((mem_registered_iff hr).2 hin), if_pos hget, add_zero]
  · rw [hclients]
    by_cases hi : i = fd.toNat
    · subst hi
      rw [Function.update_self]
      exact .inr hpos
    · rw [Function.update_of_ne hi]
      exact h.entries i

theorem Counted.remove (h : Counted storage) (hr : InRange fd) (hin : sessionStorageGet storage fd ≠ 0) :
    Counted (sessionStorageRemove storage fd) := by
  refine ⟨?_, fun i => ?_⟩
  · have hmem := (mem_registered_iff hr).2 hin
    have hpos := Finset.card_pos.2 ⟨_, hmem⟩
    have hnumber := h.number
    rw [registered_erase, Finset.card_erase_of_mem hmem, sessionStorageRemove]
    dsimp only
    omega
  · rw [remove_clients]
    by_cases hi : i = fd.toNat
    · subst hi
      exact .inl (Function.update_self _ _ _)
    · rw [Function.update_of_ne hi]
      exact h.entries i

theorem Counted.full (h : Counted storage) (hfull : storage.numberOfClients ≥ maxNumberOfConnections)
    (hr : InRange fd) : sessionStorageGet storage fd ≠ 0 := by
  have hall : registered storage = Finset.Icc 1 maxNumberOfConnections := by
    refine Finset.eq_of_subset_of_card_le (Finset.filter_subset _ _) ?_
    rw [h.number] at hfull
    rw [Nat.card_Icc, Nat.add_sub_cancel]
    exact_mod_cast hfull
  rw [← mem_registered_iff hr, hall]
  exact hr.mem

end Counting

section Limit
variable {s t : Connections} {e : Event} {srv srv' : Server} {fd : Fd}

theorem counted_start : Counted sessionStorageInit := by
  refine ⟨?_, fun i => .inl rfl⟩
  have hnone : registered sessionStorageInit = ∅ := by
    ext i
    rw [mem_registered]
    exact iff_of_false (fun h => h.2 rfl) (Finset.notMem_empty i)
  rw [hnone]
  rfl

theorem counted_tornDown (h : Counted srv.storage) (hr : InRange fd) (ht : TornDown fd srv srv') :
    Counted srv'.storage := by
  rcases ht with ⟨-, hstorage, -⟩ | ⟨hin, hstorage, -⟩
  · rwa [hstorage]
  · rw [hstorage]
    exact h.remove hr hin

theorem counted_step (h : Counted srv.storage) (hr : InRange e.fd) (href : ¬ Refused srv e)
    (hstep : loopStep limit srv e = some srv') : Counted srv'.storage := by
  cases e with
  | read now fd readBuffer receivedLength =>
    obtain ⟨-, htorn⟩ | ⟨hdata, hfull, -⟩ | ⟨-, hfull, mid, hstorage, -, hmid⟩ := doUseFd_cases hstep
    · exact counted_tornDown h hr htorn
    · exact absurd ⟨by simpa [Event.isData] using hdata, hfull⟩ href
    · have hcounted : Counted mid.storage := hstorage ▸ h.admitted hr readBuffer hfull
      rcases hmid with rfl | htorn
      · exact hcounted
      · exact counted_tornDown hcounted hr htorn
  | close now fd =>
    obtain rfl := Option.some.inj hstep
    exact counted_tornDown h hr (tornDown_closeConnection limit now srv fd)
  | drop fd =>
    obtain rfl := Option.some.inj hstep
    exact counted_tornDown h hr (tornDown_wCloseConnection srv fd)

theorem not_refused_of_not_atLimit (hr : InRange e.fd) (h : ¬ AtLimit s e) : ¬ Refused s.srv e := by
  rintro ⟨hdata, hnumber | hfd⟩
  · exact h ⟨hdata, hnumber⟩
  · have := hr.2
    omega

/-- A step below the limit keeps table and connections in step, and what it closes has left the
table. -/
theorem inStep_step (hs : InStep s) (hr : InRange e.fd) (href : ¬ Refused s.srv e)
    (h : connectionStep limit s e = some t) :
    InStep t ∧ ∀ fd ∈ newlyClosed s.srv t.srv, ¬ InTable t.srv fd := by
  obtain ⟨srv', hstep, rfl⟩ := Option.map_eq_some_iff.mp h
  obtain ⟨hothers, ho⟩ := step_outcome hstep href fun _ => hr.ne_zero
  have hsame : ∀ fd, fd ≠ e.fd → (InTable srv' fd ↔ InTable s.srv fd) := by
    intro fd hne
    rw [InTable, hothers fd hne, InTable]
  cases ho with
  | stays hd hcl hin =>
    have hnew := newlyClosed_of_same hcl
    refine ⟨fun fd hfd => ?_, by simp [hnew]⟩
    by_cases hne : fd = e.fd
    · simp [hne, hnew, hd, hin]
    · simp [hsame fd hne, hs fd hfd, hnew, Ne.symm hne]
  | absent hd hno hcl hout =>
    have hnew := newlyClosed_of_same hcl
    refine ⟨fun fd hfd => ?_, by simp [hnew]⟩
    by_cases hne : fd = e.fd
    · have hlive := (hs e.fd hr).not.1 hno
      simp [hne, hnew, hd, hout, hlive]
    · simp [hsame fd hne, hs fd hfd, hnew, Ne.symm hne]
  | closes _ hcl hout =>
    have hnew := newlyClosed_of_append hcl
    refine ⟨fun fd hfd => ?_, by simpa [hnew] using hout⟩
    by_cases hne : fd = e.fd
    · simp [hne, hnew, hout]
    · simp [hsame fd hne, hs fd hfd, hnew, hne, Ne.symm hne]

/-- A read at the limit closes a connection and leaves its entry. -/
theorem not_inStep_of_atLimit (hs : Counted s.srv.storage) (hr : InRange e.fd) (hlimit : AtLimit s e)
    (h : connectionStep limit s e = some t) :
    newlyClosed s.srv t.srv = [e.fd] ∧ InTable t.srv e.fd ∧ ¬ InStep t := by
  obtain ⟨srv', hstep, rfl⟩ := Option.map_eq_some_iff.mp h
  obtain ⟨hdata, hnumber⟩ := hlimit
  cases e with
  | read now fd readBuffer receivedLength =>
    have hd : 1 ≤ receivedLength := by simpa [Event.isData] using hdata
    obtain ⟨hend, -⟩ | ⟨-, -, hstorage, hclosed⟩ | ⟨-, hfull, -⟩ := doUseFd_cases hstep
    · omega
    · have hnew := newlyClosed_of_append hclosed
      have hin : InTable srv' fd := by
        rw [InTable, hstorage]
        exact hs.full hnumber hr
      refine ⟨hnew, hin, fun hstay => ?_⟩
      have hlive := (hstay fd hr).1 hin
      simp [hnew] at hlive
    · exact absurd (.inl hnumber) hfull
  | close now fd => simp [Event.isData] at hdata
  | drop fd => simp [Event.isData] at hdata

theorem below_limit_run {events : List Event}
    (h : Run (Guarded (fun s e => InRange e.fd ∧ ¬ AtLimit s e) (Steps (connectionStep limit))) connectionsStart
      events s) : InStep s ∧ Counted s.srv.storage := by
  refine h.invariant (I := fun s => InStep s ∧ Counted s.srv.storage) ⟨?_, counted_start⟩ ?_
  · exact fun fd _ => iff_of_false (fun hin => hin rfl) (by simp [connectionsStart])
  · rintro s e t ⟨hs, hc⟩ ⟨⟨hr, hlimit⟩, hstep⟩
    have href := not_refused_of_not_atLimit hr hlimit
    obtain ⟨srv', hsrv, rfl⟩ := Option.map_eq_some_iff.mp hstep
    exact ⟨(inStep_step hs hr href hstep).1, counted_step hc hr href hsrv⟩

/-- While no read meets a full table, table and connections are in step. The next step keeps them so,
and closes nothing that stays in the table or only for lack of room, exactly when it is no such read. -/
theorem in_step_iff_below_limit {events : List Event}
    (h : Run (Guarded (fun s e => InRange e.fd ∧ ¬ AtLimit s e) (Steps (connectionStep limit))) connectionsStart
      events s) :
    InStep s ∧ ∀ e t, InRange e.fd → connectionStep limit s e = some t →
      ((InStep t ∧ (∀ fd ∈ newlyClosed s.srv t.srv, ¬ InTable t.srv fd) ∧
        ¬ (InTable s.srv e.fd ∧ Refused s.srv e)) ↔ ¬ AtLimit s e) := by
  obtain ⟨hs, hc⟩ := below_limit_run h
  refine ⟨hs, fun e t hr hstep => ⟨?_, ?_⟩⟩
  · rintro ⟨ht, -, -⟩ hlimit
    exact (not_inStep_of_atLimit hc hr hlimit hstep).2.2 ht
  · intro hlimit
    have href := not_refused_of_not_atLimit hr hlimit
    obtain ⟨ht, hclosed⟩ := inStep_step hs hr href hstep
    exact ⟨ht, hclosed, fun hno => href hno.2⟩

theorem in_step_iff_below_limit_sendAndDrop :
    ∃ s t, Run (Guarded (fun s e => InRange e.fd ∧ ¬ AtLimit s e) (Steps (connectionStep 10))) connectionsStart
      [.read 0 5 (lit "SEND") 4] s ∧ connectionStep 10 s (.drop 5) = some t ∧
      newlyClosed s.srv t.srv = [5] ∧ InStep s ∧ InStep t := by
  have hexec : (exec (fun s e => if InRange e.fd ∧ ¬ AtLimit s e then connectionStep 10 s e else none)
      connectionsStart [.read 0 5 (lit "SEND") 4]).map (fun s => decide (¬ AtLimit s (.drop 5) ∧
        (connectionStep 10 s (.drop 5)).map (fun t => newlyClosed s.srv t.srv) = some [5])) = some true := by
    decide +kernel
  obtain ⟨s, hrun, hlimit, hdrop⟩ := exists_guarded_run_of_exec hexec
  obtain ⟨t, ht, hclosed⟩ := Option.map_eq_some_iff.mp hdrop
  obtain ⟨hs, hnext⟩ := in_step_iff_below_limit hrun
  exact ⟨s, t, hrun, ht, hclosed, hs, ((hnext (.drop 5) t (by decide) ht).2 hlimit).1⟩

end Limit

/-- The first text of the client on descriptor `i + 1`. -/
def firstRead (i : ℕ) : Event := .read 0 (BitVec.ofNat 32 (i + 1)) (lit "SEND") 4

theorem toNat_ofNat_of_le {k : ℕ} (hk : k ≤ maxNumberOfConnections) : (BitVec.ofNat 32 k).toNat = k := by
  rw [BitVec.toNat_ofNat, Nat.mod_eq_of_lt]
  exact hk.trans_lt (by decide)

theorem inRange_ofNat {k : ℕ} (hpos : 0 < k) (hk : k ≤ maxNumberOfConnections) : InRange (BitVec.ofNat 32 k) := by
  have hnat := toNat_ofNat_of_le hk
  have hmax : maxNumberOfConnections = 0x20000 := rfl
  unfold InRange
  rw [BitVec.toInt_eq_toNat_of_lt (by omega), hnat]
  omega

theorem connectionStep_of_loopStep {s : Connections} {e : Event} {srv' : Server}
    (h : loopStep limit s.srv e = some srv') : ∃ t, connectionStep limit s e = some t ∧ t.srv = srv' :=
  ⟨_, Option.map_eq_some_iff.2 ⟨srv', h, rfl⟩, rfl⟩

theorem fill_table (limit k : ℕ) (hk : k ≤ maxNumberOfConnections) :
    ∃ s, Run (Guarded (fun s e => InRange e.fd ∧ ¬ AtLimit s e) (Steps (connectionStep limit))) connectionsStart
      ((List.range k).map firstRead) s ∧ s.srv.storage.numberOfClients = k ∧
      ∀ i, k < i → s.srv.storage.clients i = 0 := by
  induction k with
  | zero => exact ⟨connectionsStart, .nil _, rfl, fun i _ => rfl⟩
  | succ k ih =>
    obtain ⟨s, hrun, hnumber, hfree⟩ := ih (by omega)
    have hr : InRange (BitVec.ofNat 32 (k + 1)) := inRange_ofNat (Nat.succ_pos k) hk
    have hnat := toNat_ofNat_of_le hk
    have hnew : sessionStorageGet s.srv.storage (BitVec.ofNat 32 (k + 1)) = 0 := by
      rw [sessionStorageGet, hnat]
      exact hfree (k + 1) (by omega)
    have hlimit : ¬ AtLimit s (firstRead k) := by
      rintro ⟨-, hfull⟩
      omega
    have hfull : ¬ TableFull s.srv (BitVec.ofNat 32 (k + 1)) := by
      rintro (hfull | hfd)
      · omega
      · have := hr.2
        omega
    obtain ⟨srv', hstep, hstorage⟩ := @doUseFd_raw s.srv (BitVec.ofNat 32 (k + 1)) (lit "SEND") 4 limit 0
      (by decide) hfull hnew (plain_of_admitted (hnat.trans_le hk)) (by decide)
    obtain ⟨entry, -, hclients, hcount⟩ := admittedStorage_spec (lit "SEND") hfull
    rw [← hstorage] at hclients hcount
    obtain ⟨t, ht, rfl⟩ := @connectionStep_of_loopStep limit s (firstRead k) srv' hstep
    refine ⟨t, ?_, ?_, ?_⟩
    · rw [List.range_succ, List.map_append]
      exact hrun.snoc ⟨⟨hr, hlimit⟩, ht⟩
    · rw [hcount, hnumber, hnew, if_neg (by decide)]
      rfl
    · intro i hi
      rw [hclients, Function.update_of_ne (by omega)]
      exact hfree i (by omega)

/-- After 131072 clients, another read of the first one closes its descriptor, which stays in the
table. -/
theorem full_table_closes_registered :
    ∃ s t, Run (Guarded (fun _ e => InRange e.fd) (Steps (connectionStep 10))) connectionsStart
      ((List.range maxNumberOfConnections).map firstRead) s ∧
    connectionStep 10 s (.read 0 1 (lit "SEND") 4) = some t ∧
    newlyClosed s.srv t.srv = [1] ∧ InTable t.srv 1 ∧ ¬ InStep t := by
  obtain ⟨s, hrun, hnumber, -⟩ := fill_table 10 maxNumberOfConnections le_rfl
  obtain ⟨-, hcounted⟩ := below_limit_run hrun
  have hadd : sessionStorageAddNew (sessionStorageLock s.srv.storage) 1 =
      (.maxSessionNumberExceeded, sessionStorageLock s.srv.storage) := if_pos (.inl hnumber.ge)
  obtain ⟨srv', hread⟩ : ∃ srv', doUseFd 10 0 s.srv 1 (lit "SEND") 4 = some srv' := by
    rw [doUseFd, if_neg (by decide)]
    simp only [hadd]
    exact ⟨_, rfl⟩
  obtain ⟨t, ht, -⟩ := @connectionStep_of_loopStep 10 s (.read 0 1 (lit "SEND") 4) srv' hread
  refine ⟨s, t, hrun.mono ?_, ht, ?_⟩
  · rintro s e t ⟨⟨hr, -⟩, hstep⟩
    exact ⟨hr, hstep⟩
  · exact @not_inStep_of_atLimit 10 s t (.read 0 1 (lit "SEND") 4) hcounted (by decide) ⟨rfl, hnumber.ge⟩ ht

end StompBroker.Descriptors
