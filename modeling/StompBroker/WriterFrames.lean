import StompBroker.WriterWait

/-! What becomes of every enqueued frame, over all interleavings of the writers and the producers. A
frame is queued, at hand, written once, or left out by the write of the batch it was in. -/
namespace StompBroker.WriterFrames
open CString SessionStorage Message WriterThread WriterIteration WriterPool BatchExtraction TransitionSystem WriterWait

def batchOf : Writer → List Queued
  | .holding batch => batch
  | _ => []

def atHand (count : ℕ) (p : Pool) : List Queued := (List.range count).flatMap fun w => batchOf (p.writers w)

def everywhere (count : ℕ) (p : Pool) (lost : List Queued) : List Queued :=
  p.queue ++ atHand count p ++ p.written.map Prod.snd ++ lost

/-- The frames of a batch that its write does not hand to the socket. -/
def unsent (batch : List Queued) (registered : List Bool) (accepted : ℕ) : List Queued :=
  match fillBuffer Queued.message batch registered with
  | none => batch
  | some out => batch.diff (out.take accepted)

def numbered (first : ℕ) (ms : List MessageWithFrameLen) : List Queued := ms.mapIdx fun i m => ⟨first + i, m⟩

/-- The frame was in a batch whose write left it out. -/
def LeftOut (count bufferSize : ℕ) (events : List Event) (x : Queued) : Prop :=
  ∃ before w registered accepted after c batch, events = before ++ .write w registered accepted :: after ∧
    Runs count bufferSize crewStart before c ∧ c.pool.writers w = .holding batch ∧ x ∈ unsent batch registered accepted

variable {count bufferSize : ℕ} {c c' : Crew} {p : Pool} {e : Event} {events : List Event}

theorem numbered_append (first : ℕ) (ms ms' : List MessageWithFrameLen) :
    numbered first (ms ++ ms') = numbered first ms ++ numbered (first + ms.length) ms' := by
  simp [numbered, List.mapIdx_append, Nat.add_comm, Nat.add_left_comm]

theorem enqueueAll_numbered (p : Pool) (ms : List MessageWithFrameLen) :
    enqueueAll p ms = { p with queue := p.queue ++ numbered p.next ms, next := p.next + ms.length } := by
  induction ms generalizing p with
  | nil => simp [enqueueAll, numbered]
  | cons m ms ih =>
    rw [enqueueAll, List.foldl_cons, ← enqueueAll, ih]
    simp [numbered, Nat.add_comm, Nat.add_left_comm]

theorem numbered_nodup (first : ℕ) (ms : List MessageWithFrameLen) : (numbered first ms).Nodup := by
  have hseq : (numbered first ms).map Queued.seq = List.range' first ms.length :=
    List.ext_getElem (by simp [numbered]) fun i h1 h2 => by simp [numbered]
  exact .of_map Queued.seq (hseq ▸ List.nodup_range')

theorem atHand_update {w : ℕ} (hw : w < count) (p : Pool) (new : Writer) (x : Queued) :
    (atHand count { p with writers := Function.update p.writers w new }).count x + (batchOf (p.writers w)).count x =
      (atHand count p).count x + (batchOf new).count x := by
  have hperm : (List.range count).Perm (w :: (List.range count).erase w) := List.perm_cons_erase (List.mem_range.2 hw)
  have hrest : ((List.range count).erase w).flatMap (fun v => batchOf (Function.update p.writers w new v)) =
      ((List.range count).erase w).flatMap fun v => batchOf (p.writers v) := by
    refine List.flatMap_congr fun v hv => ?_
    have hne : v ≠ w := ((List.nodup_range.mem_erase_iff).1 hv).1
    rw [Function.update_of_ne hne]
  have hnew := (hperm.flatMap_right fun v => batchOf (Function.update p.writers w new v)).count_eq x
  have hold := (hperm.flatMap_right fun v => batchOf (p.writers v)).count_eq x
  rw [List.flatMap_cons, List.count_append] at hnew hold
  rw [Function.update_self, hrest] at hnew
  rw [atHand, atHand]
  simp only
  omega

theorem unsent_perm {batch : List Queued} {registered : List Bool} {accepted : ℕ} {out : List Queued}
    (h : fillBuffer Queued.message batch registered = some out) :
    (out.take accepted ++ unsent batch registered accepted).Perm batch := by
  have hsub : (out.take accepted).Sublist batch := (List.take_sublist _ _).trans (fillBuffer_sublist h).1
  rw [unsent, h]
  exact List.subperm_append_diff_self_of_count_le fun x _ => hsub.count_le x

theorem LeftOut.mono {x : Queued} (h : LeftOut count bufferSize events x) (e : Event) :
    LeftOut count bufferSize (events ++ [e]) x := by
  obtain ⟨before, w, registered, accepted, after, c, batch, rfl, hrun, hbatch, hx⟩ := h
  exact ⟨before, w, registered, accepted, after ++ [e], c, batch, by simp, hrun, hbatch, hx⟩

structure Placed (count bufferSize : ℕ) (events : List Event) (p : Pool) (lost : List Queued) : Prop where
  next : p.next = (events.flatMap Event.messages).length
  places : (everywhere count p lost).Perm (numbered 0 (events.flatMap Event.messages))
  excused : ∀ x ∈ lost, LeftOut count bufferSize events x

variable {lost : List Queued}

theorem Placed.start : Placed count bufferSize [] poolStart [] where
  next := rfl
  places := by
    have hnone : atHand count poolStart = [] := by simp [atHand, poolStart, batchOf]
    rw [everywhere, hnone]
    exact .refl _
  excused := by simp

theorem Placed.enqueue (h : Placed count bufferSize events p lost) (e : Event) :
    Placed count bufferSize (events ++ [e]) (enqueueAll p e.messages) lost where
  next := by
    rw [enqueueAll_numbered, List.flatMap_append, List.flatMap_singleton, List.length_append, h.next]
  places := by
    rw [enqueueAll_numbered, List.flatMap_append, List.flatMap_singleton, numbered_append, Nat.zero_add, ← h.next]
    refine .trans ?_ (h.places.append_right _)
    refine List.perm_iff_count.2 fun x => ?_
    simp only [everywhere, List.count_append, atHand]
    omega
  excused := fun x hx => (h.excused x hx).mono e

theorem Placed.take {w : ℕ} {p' : Pool} (h : Placed count bufferSize events p lost) (he : e.messages = [])
    (hs : poolStep count bufferSize p (.take w) = some p') : Placed count bufferSize (events ++ [e]) p' lost := by
  obtain ⟨hw, hidle, -, rfl⟩ := poolStep_take hs
  have hsame : (events ++ [e]).flatMap Event.messages = events.flatMap Event.messages := by simp [he]
  refine ⟨hsame ▸ h.next, hsame ▸ .trans ?_ h.places, fun x hx => (h.excused x hx).mono e⟩
  refine List.perm_iff_count.2 fun x => ?_
  have hpick := (pickUp_perm Queued.message 0 0 bufferSize p.queue).count_eq x
  have hhand := atHand_update hw p (.holding (pickUp Queued.message 0 0 bufferSize p.queue).1) x
  rw [hidle] at hhand
  simp only [everywhere, List.count_append, batchOf, List.count_nil, Nat.add_zero, atHand] at hpick hhand ⊢
  omega

theorem Placed.write {w accepted : ℕ} {registered : List Bool} {p' : Pool} (h : Placed count bufferSize events c.pool lost)
    (hrun : Runs count bufferSize crewStart events c)
    (hs : poolStep count bufferSize c.pool (.write w registered accepted) = some p') :
    ∃ lost', Placed count bufferSize (events ++ [.write w registered accepted]) p' lost' := by
  obtain ⟨hw, batch, hbatch, hcase⟩ := poolStep_write hs
  have hsame : (events ++ [Event.write w registered accepted]).flatMap Event.messages = events.flatMap Event.messages := by
    simp [Event.messages]
  have hhand := atHand_update hw c.pool
  have hexcused : ∀ x ∈ lost ++ unsent batch registered accepted,
      LeftOut count bufferSize (events ++ [.write w registered accepted]) x := by
    intro x hx
    rcases List.mem_append.1 hx with hx | hx
    · exact (h.excused x hx).mono _
    · exact ⟨events, w, registered, accepted, [], c, batch, rfl, hrun, hbatch, hx⟩
  refine ⟨lost ++ unsent batch registered accepted, ?_⟩
  rw [hbatch] at hhand
  rcases hcase with ⟨hfill, rfl⟩ | ⟨out, hfill, rfl⟩
  · refine ⟨hsame ▸ h.next, hsame ▸ .trans ?_ h.places, hexcused⟩
    refine List.perm_iff_count.2 fun x => ?_
    have hended := hhand .ended x
    have hall : unsent batch registered accepted = batch := by rw [unsent, hfill]
    simp only [everywhere, hall, List.count_append, batchOf, List.count_nil, Nat.add_zero] at hended ⊢
    omega
  · refine ⟨hsame ▸ h.next, hsame ▸ .trans ?_ h.places, hexcused⟩
    refine List.perm_iff_count.2 fun x => ?_
    have hidle := hhand .idle x
    have hsplit := (@unsent_perm batch registered accepted out hfill).count_eq x
    have hsnd : ((out.take accepted).map fun x => (targetFd Queued.message batch, x)).map Prod.snd = out.take accepted := by
      simp [Function.comp_def]
    simp only [everywhere, hsnd, List.map_append, List.count_append, batchOf, List.count_nil, Nat.add_zero, atHand]
      at hidle hsplit ⊢
    omega

theorem Placed.step (h : Placed count bufferSize events c.pool lost) (hrun : Runs count bufferSize crewStart events c)
    (hs : crewStep count bufferSize c e = some c') : ∃ lost', Placed count bufferSize (events ++ [e]) c'.pool lost' := by
  rcases crewStep_pool hs with hpool | ⟨he, ⟨w, htake⟩ | ⟨w, registered, accepted, rfl, hwrite⟩⟩
  · exact ⟨lost, hpool ▸ h.enqueue e⟩
  · exact ⟨lost, h.take he htake⟩
  · exact h.write hrun hwrite

/-- Every enqueued frame is queued, at hand, written, or was left out by the write of its batch, and it is
so once. -/
theorem frames_conserved (h : Runs count bufferSize crewStart events c) :
    ∃ lost, (everywhere count c.pool lost).Perm (numbered 0 (events.flatMap Event.messages)) ∧
      (everywhere count c.pool lost).Nodup ∧ ∀ x ∈ lost, LeftOut count bufferSize events x := by
  have hstep : ∀ (events : List Event) (c : Crew) (e : Event) (c' : Crew),
      (Runs count bufferSize crewStart events c ∧ ∃ lost, Placed count bufferSize events c.pool lost) →
      Steps (crewStep count bufferSize) c e c' →
      Runs count bufferSize crewStart (events ++ [e]) c' ∧ ∃ lost, Placed count bufferSize (events ++ [e]) c'.pool lost := by
    rintro events c e c' ⟨hrun, lost, hplaced⟩ hs
    exact ⟨.snoc hrun hs, hplaced.step hrun hs⟩
  obtain ⟨-, lost, hplaced⟩ := h.history ⟨.nil _, [], Placed.start⟩ hstep
  exact ⟨lost, hplaced.places, hplaced.places.nodup_iff.2 (numbered_nodup 0 _), hplaced.excused⟩

/-- Two frames for one socket around one for another; the second one is for a session that is gone. -/
def mixedFrames : List Event :=
  [.tsEnqueueMultiple [messageCreateWithFrameLen 5 (lit "a"), messageCreateWithFrameLen 6 (lit "b")] none,
    .tsEnqueue (messageCreateWithFrameLen 5 (lit "c")) none, .take 1, .take 0, .write 0 [false] 1, .write 1 [true, true] 2]

theorem frames_conserved_mixedFrames : ∃ c, Runs 2 10000 crewStart mixedFrames c ∧ c.pool.written.map Prod.fst = [5, 5] ∧
    ∃ lost, (everywhere 2 c.pool lost).Perm (numbered 0 (mixedFrames.flatMap Event.messages)) := by
  obtain ⟨c, hrun, hwritten⟩ : ∃ c, Runs 2 10000 crewStart mixedFrames c ∧ c.pool.written.map Prod.fst = [5, 5] :=
    exists_run_of_exec (P := fun c : Crew => c.pool.written.map Prod.fst = [5, 5]) (by decide)
  obtain ⟨lost, hperm, -, -⟩ := frames_conserved hrun
  exact ⟨c, hrun, hwritten, lost, hperm⟩

theorem mem_numbered {first : ℕ} {ms : List MessageWithFrameLen} {x : Queued} (h : x ∈ numbered first ms) :
    x.message ∈ ms := by
  obtain ⟨i, hi, rfl⟩ := List.mem_mapIdx.1 h
  exact List.getElem_mem hi

theorem queue_enqueued (h : Runs count bufferSize crewStart events c) :
    ∀ x ∈ c.pool.queue, x.message ∈ events.flatMap Event.messages := by
  obtain ⟨lost, hperm, -⟩ := frames_conserved h
  intro x hx
  exact mem_numbered (hperm.mem_iff.1 (by simp [everywhere, hx]))

/-- The batch was picked up from a queue of enqueued messages. -/
def PickedUp (bufferSize : ℕ) (events : List Event) (batch : List Queued) : Prop :=
  ∃ q : List Queued, batch = (pickUp Queued.message 0 0 bufferSize q).1 ∧
    ∀ x ∈ q, x.message ∈ events.flatMap Event.messages

theorem PickedUp.mono {batch : List Queued} (h : PickedUp bufferSize events batch) (e : Event) :
    PickedUp bufferSize (events ++ [e]) batch := by
  obtain ⟨q, hq, hmem⟩ := h
  refine ⟨q, hq, fun x hx => ?_⟩
  rw [List.flatMap_append]
  exact List.mem_append_left _ (hmem x hx)

/-- A step hands a writer a batch from the queue, or takes its batch away. -/
theorem holding_step {w : ℕ} {batch : List Queued} (hs : crewStep count bufferSize c e = some c')
    (hw : c'.pool.writers w = .holding batch) :
    c.pool.writers w = .holding batch ∨ batch = (pickUp Queued.message 0 0 bufferSize c.pool.queue).1 := by
  rcases crewStep_pool hs with hpool | ⟨-, ⟨v, htake⟩ | ⟨v, registered, accepted, -, hwrite⟩⟩
  · rw [hpool, (enqueueAll_queue c.pool _).2.1] at hw
    exact .inl hw
  · obtain ⟨-, -, -, hp⟩ := poolStep_take htake
    rw [hp] at hw
    by_cases hv : w = v
    · subst hv
      simp only [Function.update_self, Writer.holding.injEq] at hw
      exact .inr hw.symm
    · simp only [Function.update_of_ne hv] at hw
      exact .inl hw
  · obtain ⟨-, held, -, ⟨-, hp⟩ | ⟨out, -, hp⟩⟩ := poolStep_write hwrite
    all_goals
      rw [hp] at hw
      by_cases hv : w = v
      · subst hv
        simp at hw
      · simp only [Function.update_of_ne hv] at hw
        exact .inl hw

theorem holding_pickedUp (h : Runs count bufferSize crewStart events c) :
    ∀ w batch, c.pool.writers w = .holding batch → PickedUp bufferSize events batch := by
  have hstep : ∀ (events : List Event) (c : Crew) (e : Event) (c' : Crew), (Runs count bufferSize crewStart events c ∧
      ∀ w batch, c.pool.writers w = .holding batch → PickedUp bufferSize events batch) →
      Steps (crewStep count bufferSize) c e c' → Runs count bufferSize crewStart (events ++ [e]) c' ∧
      ∀ w batch, c'.pool.writers w = .holding batch → PickedUp bufferSize (events ++ [e]) batch := by
    rintro events c e c' ⟨hrun, hpicked⟩ hs
    refine ⟨.snoc hrun hs, fun w batch hw => ?_⟩
    rcases holding_step hs hw with hbatch | rfl
    · exact (hpicked w batch hbatch).mono e
    · exact PickedUp.mono ⟨c.pool.queue, rfl, queue_enqueued hrun⟩ e
  exact (h.history ⟨.nil _, by simp [crewStart, poolStart]⟩ hstep).2

/-- A batch without a pill is for one id, unless descriptor zero was enqueued. -/
theorem pickUp_oneId {q : List Queued} (hz : ∀ x ∈ q, x.message.fd ≠ 0)
    (hlive : ∀ x ∈ (pickUp Queued.message 0 0 bufferSize q).1, isPoison Queued.message x = false) :
    ∃ fd, ∀ x ∈ (pickUp Queued.message 0 0 bufferSize q).1, x.message.fd = fd := by
  cases q with
  | nil => exact ⟨0, by simp [pickUp]⟩
  | cons x q =>
    by_cases hgo : 0 < messagesBatchSize ∧ (bufferSize : ℤ) > 0
    swap
    · exact ⟨0, by simp [pickUp_full q hgo]⟩
    cases hp : isPoison Queued.message x with
    | true =>
      rw [pickUp_poison q hgo hp] at hlive
      simp [hp] at hlive
    | false =>
      rw [pickUp_first q hgo hp rfl] at hlive ⊢
      obtain ⟨same, pill, hr, -, hsame, hpill⟩ := pickUp_oneFd Queued.message (0 + 1)
        (hz x List.mem_cons_self) (bufferSize - x.message.frameLen) q
      refine ⟨x.message.fd, fun y hy => ?_⟩
      have hnot := isPoison_eq_false.1 (hlive y hy)
      rw [hr] at hy
      rcases List.mem_cons.1 hy with rfl | hy
      · rfl
      · rcases List.mem_append.1 hy with hy | hy
        · exact hsame y hy
        · exact absurd (hpill y hy) hnot

theorem PickedUp.socket_eq {batch : List Queued} (h : PickedUp bufferSize events batch)
    (hz : ∀ m ∈ events.flatMap Event.messages, m.fd ≠ 0) (hlive : ∀ x ∈ batch, isPoison Queued.message x = false) :
    ∀ x ∈ batch, x.socket = targetFd Queued.message batch := by
  obtain ⟨q, rfl, hmem⟩ := h
  obtain ⟨fd, hfd⟩ := pickUp_oneId (fun x hx => hz _ (hmem x hx)) hlive
  intro x hx
  obtain ⟨last, hlast⟩ := List.getLast?_isSome.2 (List.ne_nil_of_mem hx) |> Option.isSome_iff_exists.1
  rw [targetFd, hlast, Option.map_some, Option.getD_some, Queued.socket, WriterThread.socket, WriterThread.socket, hfd x hx,
    hfd last (List.mem_of_getLast? hlast)]

theorem PickedUp.enqueued {batch : List Queued} (h : PickedUp bufferSize events batch) :
    ∀ x ∈ batch, x.message ∈ events.flatMap Event.messages := by
  obtain ⟨q, rfl, hmem⟩ := h
  exact fun x hx => hmem x ((pickUp_sublist Queued.message 0 0 bufferSize q).1.mem hx)

theorem PickedUp.addressed {batch out : List Queued} {registered : List Bool} (h : PickedUp bufferSize events batch)
    (hz : ∀ m ∈ events.flatMap Event.messages, isPill m = false → Addressable m.fd)
    (hfill : fillBuffer Queued.message batch registered = some out) :
    ∀ x ∈ out, targetFd Queued.message batch = descriptorOf x.message.fd := by
  -- a batch that fills the buffer has no pill
  have hlive : ∀ x ∈ batch, isPoison Queued.message x = false := by
    intro x hx
    by_contra hpill
    rw [fillBuffer_pill ⟨x, hx, by simpa using hpill⟩] at hfill
    cases hfill
  have hzero : ∀ m ∈ events.flatMap Event.messages, m.fd ≠ 0 := by
    intro m hm h0
    exact (hz m hm (by simp [isPill, h0, poisonFd])).1 h0
  intro x hx
  have hxb : x ∈ batch := (fillBuffer_sublist hfill).1.mem hx
  have haddress := hz _ (h.enqueued x hxb) (hlive x hxb)
  have hsocket : sessionWithoutFlags x.message.fd = targetFd Queued.message batch := h.socket_eq hzero hlive x hxb
  rw [← hsocket, haddress.socket_eq]

/-- Every frame is written to the descriptor of its session, as long as the descriptors have fourteen bits
and none is zero. -/
theorem frames_addressed (h : Runs count bufferSize crewStart events c)
    (hz : ∀ m ∈ events.flatMap Event.messages, isPill m = false → Addressable m.fd) :
    ∀ y ∈ c.pool.written, y.1 = descriptorOf y.2.message.fd := by
  induction h with
  | nil => simp [crewStart, poolStart]
  | @snoc c c' events e prior last ih =>
    rw [List.flatMap_append] at hz
    have hprior : ∀ m ∈ events.flatMap Event.messages, isPill m = false → Addressable m.fd :=
      fun m hm => hz m (List.mem_append_left _ hm)
    rcases crewStep_pool last with hpool | ⟨-, ⟨w, htake⟩ | ⟨w, registered, accepted, -, hwrite⟩⟩
    · rw [hpool, (enqueueAll_queue c.pool _).2.2]
      exact ih hprior
    · obtain ⟨-, -, -, hp⟩ := poolStep_take htake
      rw [hp]
      exact ih hprior
    · obtain ⟨-, batch, hbatch, ⟨-, hp⟩ | ⟨out, hfill, hp⟩⟩ := poolStep_write hwrite
      · rw [hp]
        exact ih hprior
      · have haddressed := (holding_pickedUp prior w batch hbatch).addressed hprior hfill
        intro y hy
        rw [hp] at hy
        rcases List.mem_append.1 hy with hy | hy
        · exact ih hprior y hy
        · obtain ⟨x, hx, rfl⟩ := List.mem_map.1 hy
          exact haddressed x (List.mem_of_mem_take hx)

theorem frames_addressed_mixedFrames : ∃ c, Runs 2 10000 crewStart mixedFrames c ∧ c.pool.written.map Prod.fst = [5, 5] ∧
    ∀ y ∈ c.pool.written, y.1 = descriptorOf y.2.message.fd := by
  obtain ⟨c, hrun, hwritten⟩ : ∃ c, Runs 2 10000 crewStart mixedFrames c ∧ c.pool.written.map Prod.fst = [5, 5] :=
    exists_run_of_exec (P := fun c : Crew => c.pool.written.map Prod.fst = [5, 5]) (by decide)
  exact ⟨c, hrun, hwritten, frames_addressed hrun (by decide)⟩

def FullWrite : Event → Prop
  | .write _ registered accepted =>
      (∀ found ∈ registered, found = true) ∧ messagesBatchSize ≤ registered.length ∧ messagesBatchSize ≤ accepted
  | _ => True

theorem fillBuffer_all {batch : List Queued} {registered : List Bool} (hlive : ∀ x ∈ batch, isPoison Queued.message x = false)
    (hfound : ∀ found ∈ registered, found = true) (hlen : batch.length ≤ registered.length) :
    fillBuffer Queued.message batch registered = some batch := by
  induction batch generalizing registered with
  | nil => rfl
  | cons x batch ih =>
    cases registered with
    | nil => simp at hlen
    | cons found registered =>
      obtain rfl : found = true := hfound found List.mem_cons_self
      have hlook : look true x.message = .copied := by simp [look, isPoison_eq_false.1 (hlive x List.mem_cons_self)]
      have hrest := ih (fun y hy => hlive y (List.mem_cons_of_mem x hy)) (fun f hf => hfound f (List.mem_cons_of_mem true hf))
        (by simpa using hlen)
      rw [fillBuffer, List.headD_cons, List.tail_cons, hlook, hrest]
      rfl

theorem PickedUp.unsent_eq_nil {batch : List Queued} {w accepted : ℕ} {registered : List Bool}
    (h : PickedUp bufferSize events batch) (hp : ∀ m ∈ events.flatMap Event.messages, isPill m = false)
    (hfull : FullWrite (.write w registered accepted)) : unsent batch registered accepted = [] := by
  obtain ⟨q, hq, hmem⟩ := h
  obtain ⟨hfound, hregistered, haccepted⟩ := hfull
  have hlen : batch.length ≤ messagesBatchSize := hq ▸ pickUp_length_le Queued.message 0 0 bufferSize q
  have hsub : batch.Sublist q := hq ▸ (pickUp_sublist Queued.message 0 0 bufferSize q).1
  have hfill := fillBuffer_all (fun x hx => hp _ (hmem x (hsub.mem hx))) hfound (hlen.trans hregistered)
  have hsplit := (@unsent_perm batch registered accepted batch hfill).length_eq
  rw [List.take_of_length_le (hlen.trans haccepted), List.length_append] at hsplit
  exact List.eq_nil_of_length_eq_zero (by omega)

/-- With full writes only, and before the first pill, every enqueued frame is queued, at hand or written. -/
theorem frames_kept (h : Runs count bufferSize crewStart events c)
    (hp : ∀ m ∈ events.flatMap Event.messages, isPill m = false) (hf : ∀ e ∈ events, FullWrite e) :
    (everywhere count c.pool []).Perm (numbered 0 (events.flatMap Event.messages)) := by
  obtain ⟨lost, hperm, -, hlost⟩ := frames_conserved h
  have hnone : lost = [] := by
    refine List.eq_nil_iff_forall_not_mem.2 fun x hx => ?_
    obtain ⟨before, w, registered, accepted, after, d, batch, rfl, hrun, hbatch, hx⟩ := hlost x hx
    have hbefore : ∀ m ∈ before.flatMap Event.messages, isPill m = false := fun m hm => hp m (by
      rw [List.flatMap_append]
      exact List.mem_append_left _ hm)
    have hempty := (holding_pickedUp hrun w batch hbatch).unsent_eq_nil hbefore (hf (.write w registered accepted) (by simp))
    simp [hempty] at hx
  exact hnone ▸ hperm

end StompBroker.WriterFrames
