import StompBroker.WriterPool
import StompBroker.WriterIteration
import StompBroker.BatchExtraction
import StompBroker.Monitor

/-! Writer threads that wait for the output queue. A writer sleeps while the queue is empty; every
call that enqueues signals the condition once, also the one that enqueues several messages. -/
namespace StompBroker.WriterWait
open CString SessionStorage Message WriterThread WriterIteration WriterPool BatchExtraction TransitionSystem Monitor

/-- The pool, and the writers in `pthread_cond_wait`. -/
structure Crew where
  pool : Pool
  waiting : Finset ℕ

/-- Calls of the producers with the writer that the signal wakes, and steps of a writer: it goes to
sleep, returns without a signal, takes a batch, or writes it. -/
inductive Event
  | tsEnqueue (m : MessageWithFrameLen) (woken : Option ℕ)
  | tsEnqueueMultiple (ms : List MessageWithFrameLen) (woken : Option ℕ)
  | condWait (w : ℕ)
  | condReturn (w : ℕ)
  | take (w : ℕ)
  | write (w : ℕ) (registered : List Bool) (accepted : ℕ)
  deriving DecidableEq, Repr

def messagePoisonPillWithFrameLen : MessageWithFrameLen := messageCreateWithFrameLen poisonFd (lit "KILL")

/-- A signal wakes a writer that waits, if there is one. -/
def signal (waiting : Finset ℕ) : Option ℕ → Option (Finset ℕ)
  | none => if waiting = ∅ then some ∅ else none
  | some w => if w ∈ waiting then some (waiting.erase w) else none

def enqueueAll (p : Pool) (ms : List MessageWithFrameLen) : Pool :=
  ms.foldl (fun p m => { p with queue := p.queue ++ [⟨p.next, m⟩], next := p.next + 1 }) p

def crewStart : Crew := ⟨poolStart, ∅⟩

/-- A step of `count` writers with buffers of the given size and of the threads that enqueue. -/
def crewStep (count bufferSize : ℕ) (c : Crew) : Event → Option Crew
  | .tsEnqueue m woken => (signal c.waiting woken).map fun waiting => ⟨enqueueAll c.pool [m], waiting⟩
  | .tsEnqueueMultiple ms woken =>
      if ms = [] then some c else (signal c.waiting woken).map fun waiting => ⟨enqueueAll c.pool ms, waiting⟩
  | .condWait w =>
      if w < count ∧ w ∉ c.waiting ∧ c.pool.writers w = .idle ∧ c.pool.queue = [] then
        some { c with waiting := insert w c.waiting }
      else none
  | .condReturn w => if w ∈ c.waiting then some { c with waiting := c.waiting.erase w } else none
  | .take w =>
      if w ∈ c.waiting then none
      else (poolStep count bufferSize c.pool (.take w)).map fun pool => { c with pool := pool }
  | .write w registered accepted =>
      (poolStep count bufferSize c.pool (.write w registered accepted)).map fun pool => { c with pool := pool }

abbrev Runs (count bufferSize : ℕ) := Run (Steps (crewStep count bufferSize))

/-- What `process_kill_threads` puts on the output queue. -/
def processKillThreads (count : ℕ) (woken : ℕ → Option ℕ) : List Event :=
  (List.range count).map fun i => .tsEnqueue messagePoisonPillWithFrameLen (woken i)

def Event.messages : Event → List MessageWithFrameLen
  | .tsEnqueue m _ => [m]
  | .tsEnqueueMultiple ms _ => ms
  | _ => []

def Event.ofWriter : Event → Bool
  | .tsEnqueue _ _ | .tsEnqueueMultiple _ _ => false
  | _ => true

def isPill (m : MessageWithFrameLen) : Bool := m.fd == poisonFd

/-- Poison pills are enqueued one at a time. -/
def PillsAlone : Event → Prop
  | .tsEnqueueMultiple ms _ => ∀ m ∈ ms, isPill m = false
  | _ => True

instance (e : Event) : Decidable (PillsAlone e) :=
  match e with
  | .tsEnqueueMultiple ms _ => inferInstanceAs (Decidable (∀ m ∈ ms, isPill m = false))
  | .tsEnqueue _ _ | .condWait _ | .condReturn _ | .take _ | .write _ _ _ => inferInstanceAs (Decidable True)

def Returns : Writer → Prop
  | .idle => True
  | .holding batch => ∀ x ∈ batch, isPoison Queued.message x = false
  | .ended => False

instance (writer : Writer) : Decidable (Returns writer) :=
  match writer with
  | .idle => inferInstanceAs (Decidable True)
  | .holding batch => inferInstanceAs (Decidable (∀ x ∈ batch, _))
  | .ended => inferInstanceAs (Decidable False)

variable {count bufferSize : ℕ} {c c' : Crew} {e : Event} {events : List Event}

section Batch
variable (msg : Queued → MessageWithFrameLen) (q : List Queued)

theorem pickUp_pills_le (index : ℕ) (firstFd : Fd) (remainingLen : ℤ) :
    (pickUp msg index firstFd remainingLen q).1.countP (isPoison msg) ≤ 1 := by
  refine pickUp_induction msg (P := fun _ _ r => r.1.countP (isPoison msg) ≤ 1) ?_ ?_ ?_ ?_ index firstFd remainingLen q
  · exact fun _ _ => Nat.zero_le 1
  · intro _ x _ hp
    simp [hp]
  · intro _ x _ r hp _ ih
    rwa [List.countP_cons_of_neg (by simp [hp])]
  · exact fun _ _ _ _ _ _ _ ih => ih

variable {q}

theorem pickUp_ne_nil (hb : 0 < bufferSize) (hq : q ≠ []) : (pickUp msg 0 0 bufferSize q).1 ≠ [] := by
  obtain ⟨x, q, rfl⟩ := List.exists_cons_of_ne_nil hq
  have hgo : 0 < messagesBatchSize ∧ (bufferSize : ℤ) > 0 := ⟨by decide, by omega⟩
  cases hp : isPoison msg x with
  | true =>
    rw [pickUp_poison q hgo hp]
    exact List.cons_ne_nil _ _
  | false =>
    rw [pickUp_first q hgo hp rfl]
    exact List.cons_ne_nil _ _

end Batch

def phaseOf (waiting : Bool) : Writer → Phase
  | .idle => if waiting then .asleep else .ready
  | .holding batch => if batch.countP (isPoison Queued.message) = 0 then .busy else .stopping
  | .ended => .gone

def monitor (count : ℕ) (c : Crew) : State (Fin count) MessageWithFrameLen where
  queue := c.pool.queue.map Queued.message
  phase := fun w => phaseOf (decide (w.val ∈ c.waiting)) (c.pool.writers w)

def WaitersIdle (count : ℕ) (c : Crew) : Prop := ∀ w ∈ c.waiting, w < count ∧ c.pool.writers w = .idle

def acts (count : ℕ) : Event → List (Act (Fin count) MessageWithFrameLen)
  | .tsEnqueue m _ => [.put [m]]
  | .tsEnqueueMultiple ms _ => if ms = [] then [] else [.put ms]
  | .condWait w => if h : w < count then [.sleep ⟨w, h⟩] else []
  | .condReturn w => if h : w < count then [.wake ⟨w, h⟩] else []
  | .take w => if h : w < count then [.take ⟨w, h⟩] else []
  | .write w _ _ => if h : w < count then [.done ⟨w, h⟩] else []

theorem enqueueAll_queue (p : Pool) (ms : List MessageWithFrameLen) :
    (enqueueAll p ms).queue.map Queued.message = p.queue.map Queued.message ++ ms ∧
      (enqueueAll p ms).writers = p.writers ∧ (enqueueAll p ms).written = p.written := by
  induction ms generalizing p with
  | nil => simp [enqueueAll]
  | cons m ms ih =>
    obtain ⟨hq, hw, hout⟩ := ih { p with queue := p.queue ++ [⟨p.next, m⟩], next := p.next + 1 }
    refine ⟨?_, hw, hout⟩
    rw [enqueueAll, List.foldl_cons, ← enqueueAll, hq]
    simp

theorem signalled {waiting : Finset ℕ} {woken : Option ℕ} (h : signal c.waiting woken = some waiting)
    (hi : WaitersIdle count c) :
    Signalled (monitor count c).phase (fun w => phaseOf (decide (w.val ∈ waiting)) (c.pool.writers w)) ∧
      waiting ⊆ c.waiting := by
  cases woken with
  | none =>
    simp only [signal] at h
    split_ifs at h with hempty
    obtain rfl := Option.some_inj.1 h
    refine ⟨?_, Finset.empty_subset _⟩
    have hsame : (fun w : Fin count => phaseOf (decide (w.val ∈ (∅ : Finset ℕ))) (c.pool.writers w)) =
        (monitor count c).phase := by
      simp [monitor, hempty]
    rw [hsame]
    refine .nobody fun w hw => ?_
    simp only [monitor, hempty, Finset.notMem_empty, decide_false, phaseOf] at hw
    split at hw <;> simp at hw
    split_ifs at hw
  | some w =>
    simp only [signal] at h
    split_ifs at h with hw
    obtain rfl := Option.some_inj.1 h
    refine ⟨?_, Finset.erase_subset _ _⟩
    obtain ⟨hlt, hidle⟩ := hi w hw
    have hphase : (monitor count c).phase ⟨w, hlt⟩ = .asleep := by simp [monitor, hidle, hw, phaseOf]
    have hupdate : (fun v : Fin count => phaseOf (decide (v.val ∈ c.waiting.erase w)) (c.pool.writers v)) =
        Function.update (monitor count c).phase ⟨w, hlt⟩ .ready := by
      funext v
      by_cases hv : v = ⟨w, hlt⟩
      · subst hv
        simp [hidle, phaseOf]
      · have hne : v.val ≠ w := fun he => hv (Fin.ext he)
        simp [monitor, hv, hne]
    rw [hupdate]
    exact .one _ hphase

theorem fillBuffer_none_iff {batch : List Queued} {registered : List Bool} :
    fillBuffer Queued.message batch registered = none ↔ batch.countP (isPoison Queued.message) ≠ 0 := by
  by_cases h : ∃ x ∈ batch, isPoison Queued.message x = true
  · refine iff_of_true (fillBuffer_pill h) fun hz => ?_
    obtain ⟨x, hx, hp⟩ := h
    exact List.countP_eq_zero.1 hz x hx hp
  · have hlive : ∀ x ∈ batch, isPoison Queued.message x = false := fun x hx => by
      simpa using fun hp => h ⟨x, hx, hp⟩
    obtain ⟨copied, hfill, -⟩ := @fillBuffer_live _ Queued.message batch registered hlive
    refine iff_of_false (by simp [hfill]) (not_not.2 (List.countP_eq_zero.2 fun x hx => ?_))
    simp [hlive x hx]

theorem poolStep_take {p p' : Pool} {w : ℕ} (h : poolStep count bufferSize p (.take w) = some p') :
    w < count ∧ p.writers w = .idle ∧ p.queue ≠ [] ∧
      p' = { p with
        queue := (pickUp Queued.message 0 0 bufferSize p.queue).2
        writers := Function.update p.writers w (.holding (pickUp Queued.message 0 0 bufferSize p.queue).1) } := by
  simp only [poolStep] at h
  split_ifs at h with hw
  exact ⟨hw.1, hw.2.1, hw.2.2, (Option.some_inj.1 h).symm⟩

theorem poolStep_write {p p' : Pool} {w accepted : ℕ} {registered : List Bool}
    (h : poolStep count bufferSize p (.write w registered accepted) = some p') :
    w < count ∧ ∃ batch, p.writers w = .holding batch ∧
      (fillBuffer Queued.message batch registered = none ∧ p' = { p with writers := Function.update p.writers w .ended } ∨
        ∃ out, fillBuffer Queued.message batch registered = some out ∧ p' = { p with
          writers := Function.update p.writers w .idle
          written := p.written ++ (out.take accepted).map fun x => (targetFd Queued.message batch, x) }) := by
  simp only [poolStep] at h
  split_ifs at h with hw
  refine ⟨hw, ?_⟩
  cases hwr : p.writers w with
  | idle => simp [hwr] at h
  | ended => simp [hwr] at h
  | holding batch =>
    refine ⟨batch, rfl, ?_⟩
    simp only [hwr] at h
    cases hf : fillBuffer Queued.message batch registered with
    | none =>
      simp only [hf] at h
      exact .inl ⟨rfl, (Option.some_inj.1 h).symm⟩
    | some out =>
      simp only [hf] at h
      exact .inr ⟨out, rfl, (Option.some_inj.1 h).symm⟩

theorem crewStep_pool (hs : crewStep count bufferSize c e = some c') :
    c'.pool = enqueueAll c.pool e.messages ∨ e.messages = [] ∧
      ((∃ w, poolStep count bufferSize c.pool (.take w) = some c'.pool) ∨ ∃ w registered accepted,
        e = .write w registered accepted ∧ poolStep count bufferSize c.pool (.write w registered accepted) = some c'.pool) := by
  cases e with
  | tsEnqueue m woken =>
    obtain ⟨waiting, -, rfl⟩ := Option.map_eq_some_iff.1 hs
    exact .inl rfl
  | tsEnqueueMultiple ms woken =>
    simp only [crewStep] at hs
    split_ifs at hs with hms
    · obtain rfl := Option.some_inj.1 hs
      exact .inl (by rw [Event.messages, hms]; rfl)
    · obtain ⟨waiting, -, rfl⟩ := Option.map_eq_some_iff.1 hs
      exact .inl rfl
  | condWait w | condReturn w =>
    simp only [crewStep] at hs
    split_ifs at hs
    obtain rfl := Option.some_inj.1 hs
    exact .inl rfl
  | take w =>
    simp only [crewStep] at hs
    split_ifs at hs
    obtain ⟨pool, hpool, rfl⟩ := Option.map_eq_some_iff.1 hs
    exact .inr ⟨rfl, .inl ⟨w, hpool⟩⟩
  | write w registered accepted =>
    obtain ⟨pool, hpool, rfl⟩ := Option.map_eq_some_iff.1 hs
    exact .inr ⟨rfl, .inr ⟨w, registered, accepted, rfl, hpool⟩⟩

theorem phase_update {waiting : Finset ℕ} {writers : ℕ → Writer} {w : ℕ} (hlt : w < count) (hw : w ∉ waiting)
    (new : Writer) :
    (fun v : Fin count => phaseOf (decide (v.val ∈ waiting)) (Function.update writers w new v.val)) =
      Function.update (fun v : Fin count => phaseOf (decide (v.val ∈ waiting)) (writers v.val)) ⟨w, hlt⟩
        (phaseOf false new) := by
  funext v
  by_cases hv : v = ⟨w, hlt⟩
  · subst hv
    simp [hw]
  · have hne : v.val ≠ w := fun he => hv (Fin.ext he)
    simp [hv, hne]

theorem waiting_update {waiting waiting' : Finset ℕ} {writers : ℕ → Writer} {w : ℕ} (hlt : w < count)
    (hw : writers w = .idle) (hsame : ∀ v, v ≠ w → (v ∈ waiting' ↔ v ∈ waiting)) :
    (fun v : Fin count => phaseOf (decide (v.val ∈ waiting')) (writers v.val)) =
      Function.update (fun v : Fin count => phaseOf (decide (v.val ∈ waiting)) (writers v.val)) ⟨w, hlt⟩
        (if w ∈ waiting' then .asleep else .ready) := by
  funext v
  by_cases hv : v = ⟨w, hlt⟩
  · subst hv
    simp [hw, phaseOf]
  · have hne : v.val ≠ w := fun he => hv (Fin.ext he)
    simp [hv, hsame v.val hne]

theorem WaitersIdle.step (h : WaitersIdle count c) (hs : crewStep count bufferSize c e = some c') : WaitersIdle count c' := by
  cases e with
  | tsEnqueue m woken =>
    obtain ⟨waiting, hsig, rfl⟩ := Option.map_eq_some_iff.1 hs
    exact fun w hw => h w ((signalled hsig h).2 hw)
  | tsEnqueueMultiple ms woken =>
    simp only [crewStep] at hs
    split_ifs at hs with hms
    · exact Option.some_inj.1 hs ▸ h
    · obtain ⟨waiting, hsig, rfl⟩ := Option.map_eq_some_iff.1 hs
      intro w hw
      rw [(enqueueAll_queue c.pool ms).2.1]
      exact h w ((signalled hsig h).2 hw)
  | condWait w =>
    simp only [crewStep] at hs
    split_ifs at hs with hw
    obtain rfl := Option.some_inj.1 hs
    intro v hv
    rcases Finset.mem_insert.1 hv with rfl | hv
    · exact ⟨hw.1, hw.2.2.1⟩
    · exact h v hv
  | condReturn w =>
    simp only [crewStep] at hs
    split_ifs at hs
    obtain rfl := Option.some_inj.1 hs
    exact fun v hv => h v (Finset.mem_of_mem_erase hv)
  | take w =>
    simp only [crewStep] at hs
    split_ifs at hs with hw
    obtain ⟨pool, hpool, rfl⟩ := Option.map_eq_some_iff.1 hs
    obtain ⟨-, -, -, rfl⟩ := poolStep_take hpool
    intro v hv
    have hne : v ≠ w := fun he => hw (he ▸ hv)
    simpa [hne] using h v hv
  | write w registered accepted =>
    obtain ⟨pool, hpool, rfl⟩ := Option.map_eq_some_iff.1 hs
    obtain ⟨-, batch, hbatch, hcase⟩ := poolStep_write hpool
    intro v hv
    have hne : v ≠ w := by
      rintro rfl
      simpa [hbatch] using (h v hv).2
    rcases hcase with ⟨-, rfl⟩ | ⟨out, -, rfl⟩
    · simpa [hne] using h v hv
    · simpa [hne] using h v hv

theorem waitersIdle_run (h : Runs count bufferSize crewStart events c) : WaitersIdle count c :=
  h.invariant (by simp [WaitersIdle, crewStart]) fun _ _ _ hi hs => hi.step hs

theorem countP_message (batch : List Queued) :
    (batch.map Queued.message).countP isPill = batch.countP (isPoison Queued.message) := by
  rw [List.countP_map]
  rfl

theorem simulate_put {ms : List MessageWithFrameLen} {woken : Option ℕ} {waiting : Finset ℕ}
    (hi : WaitersIdle count c) (hsig : signal c.waiting woken = some waiting)
    (hkind : ms.length = 1 ∨ ∀ m ∈ ms, isPill m = false) :
    Step isPill (monitor count c) (.put ms) (monitor count ⟨enqueueAll c.pool ms, waiting⟩) := by
  obtain ⟨hq, hw, -⟩ := enqueueAll_queue c.pool ms
  have hphase := (signalled hsig hi).1
  rw [← hw] at hphase
  exact .put ms hkind (by rw [hq]; rfl) hphase

theorem simulate_take {w : ℕ} {pool : Pool} (hb : 0 < bufferSize) (hw : w ∉ c.waiting)
    (h : poolStep count bufferSize c.pool (.take w) = some pool) (hlt : w < count) :
    Step isPill (monitor count c) (.take ⟨w, hlt⟩) (monitor count { c with pool := pool }) := by
  obtain ⟨-, hidle, hne, rfl⟩ := poolStep_take h
  have hperm := (pickUp_perm Queued.message 0 0 bufferSize c.pool.queue).map Queued.message
  have hpills := pickUp_pills_le Queued.message c.pool.queue 0 0 bufferSize
  have hbatch := @pickUp_ne_nil bufferSize Queued.message c.pool.queue hb hne
  have hready : (monitor count c).phase ⟨w, hlt⟩ = .ready := by simp [monitor, hidle, hw, phaseOf]
  rw [List.map_append] at hperm
  rw [← countP_message] at hpills
  have hstep : Step isPill (monitor count c) (.take ⟨w, hlt⟩) _ :=
    .take _ _ _ hready hperm (by simpa using hbatch) hpills
  rw [countP_message] at hstep
  convert hstep using 1
  rw [monitor, phase_update hlt hw]
  rfl

theorem simulate_write {w accepted : ℕ} {registered : List Bool} {pool : Pool} (hi : WaitersIdle count c)
    (h : poolStep count bufferSize c.pool (.write w registered accepted) = some pool) (hlt : w < count) :
    Step isPill (monitor count c) (.done ⟨w, hlt⟩) (monitor count { c with pool := pool }) := by
  obtain ⟨-, batch, hbatch, hcase⟩ := poolStep_write h
  have hw : w ∉ c.waiting := fun hw => by simpa [hbatch] using (hi w hw).2
  have hphase : (monitor count c).phase ⟨w, hlt⟩ =
      if batch.countP (isPoison Queued.message) = 0 then .busy else .stopping := by
    simp [monitor, hbatch, phaseOf]
  rcases hcase with ⟨hfill, rfl⟩ | ⟨out, hfill, rfl⟩
  · rw [if_neg (fillBuffer_none_iff.1 hfill)] at hphase
    have hstep : Step isPill (monitor count c) (.done ⟨w, hlt⟩) _ := .leave _ hphase
    convert hstep using 1
    rw [monitor, phase_update hlt hw]
    rfl
  · have hnone : batch.countP (isPoison Queued.message) = 0 := by
      by_contra hne
      rw [fillBuffer_none_iff.2 hne] at hfill
      cases hfill
    rw [if_pos hnone] at hphase
    have hstep : Step isPill (monitor count c) (.done ⟨w, hlt⟩) _ := .done _ hphase
    convert hstep using 1
    rw [monitor, phase_update hlt hw]
    rfl

theorem simulate_step (hb : 0 < bufferSize) (hi : WaitersIdle count c) (hp : PillsAlone e)
    (hs : crewStep count bufferSize c e = some c') :
    Run (Step isPill) (monitor count c) (acts count e) (monitor count c') := by
  cases e with
  | tsEnqueue m woken =>
    obtain ⟨waiting, hsig, rfl⟩ := Option.map_eq_some_iff.1 hs
    exact .one (simulate_put hi hsig (.inl rfl))
  | tsEnqueueMultiple ms woken =>
    simp only [crewStep] at hs
    split_ifs at hs with hms
    · obtain rfl := Option.some_inj.1 hs
      rw [acts, if_pos hms]
      exact .nil _
    · obtain ⟨waiting, hsig, rfl⟩ := Option.map_eq_some_iff.1 hs
      rw [acts, if_neg hms]
      exact .one (simulate_put hi hsig (.inr hp))
  | condWait w =>
    simp only [crewStep] at hs
    split_ifs at hs with hw
    obtain ⟨hlt, hnot, hidle, hempty⟩ := hw
    obtain rfl := Option.some_inj.1 hs
    have hready : (monitor count c).phase ⟨w, hlt⟩ = .ready := by simp [monitor, hidle, hnot, phaseOf]
    have hphase := @waiting_update count c.waiting (insert w c.waiting) _ w hlt hidle fun v hv => by simp [hv]
    have hstep : Step isPill (monitor count c) (.sleep ⟨w, hlt⟩) _ := .sleep _ hready (by simp [monitor, hempty])
    rw [if_pos (Finset.mem_insert_self w _)] at hphase
    rw [acts, dif_pos hlt]
    refine .one ?_
    convert hstep using 1
    rw [monitor, hphase]
    rfl
  | condReturn w =>
    simp only [crewStep] at hs
    split_ifs at hs with hw
    obtain rfl := Option.some_inj.1 hs
    obtain ⟨hlt, hidle⟩ := hi w hw
    have hasleep : (monitor count c).phase ⟨w, hlt⟩ = .asleep := by simp [monitor, hidle, hw, phaseOf]
    have hphase := @waiting_update count c.waiting (c.waiting.erase w) _ w hlt hidle fun v hv => by simp [hv]
    have hstep : Step isPill (monitor count c) (.wake ⟨w, hlt⟩) _ := .wake _ hasleep
    rw [if_neg (Finset.notMem_erase w _)] at hphase
    rw [acts, dif_pos hlt]
    refine .one ?_
    convert hstep using 1
    rw [monitor, hphase]
    rfl
  | take w =>
    simp only [crewStep] at hs
    split_ifs at hs with hw
    obtain ⟨pool, hpool, rfl⟩ := Option.map_eq_some_iff.1 hs
    have hlt := (poolStep_take hpool).1
    rw [acts, dif_pos hlt]
    exact .one (simulate_take hb hw hpool hlt)
  | write w registered accepted =>
    obtain ⟨pool, hpool, rfl⟩ := Option.map_eq_some_iff.1 hs
    have hlt := (poolStep_write hpool).1
    rw [acts, dif_pos hlt]
    exact .one (simulate_write hi hpool hlt)

theorem simulate_run {d : Crew} (hb : 0 < bufferSize) (hi : WaitersIdle count c) (h : Runs count bufferSize c events d)
    (hp : ∀ e ∈ events, PillsAlone e) :
    Run (Step isPill) (monitor count c) (events.flatMap (acts count)) (monitor count d) := by
  have hstep : ∀ (c : Crew) (e : Event) (c' : Crew) (t : State (Fin count) MessageWithFrameLen), e ∈ events →
      (WaitersIdle count c ∧ t = monitor count c) → Steps (crewStep count bufferSize) c e c' →
      ∃ t', (WaitersIdle count c' ∧ t' = monitor count c') ∧ Run (Step isPill) t (acts count e) t' := by
    rintro c e c' t he ⟨hi, rfl⟩ hs
    exact ⟨_, ⟨hi.step hs, rfl⟩, simulate_step hb hi (hp e he) hs⟩
  obtain ⟨t, ⟨-, rfl⟩, hrun⟩ := h.simulate ⟨hi, rfl⟩ hstep
  exact hrun

theorem attended_crewStart : Attended isPill (monitor count crewStart) := by
  left
  refine tally_eq_zero.2 fun w => ?_
  simp [monitor, crewStart, poolStart, phaseOf, Phase.sleeps]

theorem attended_crew (hb : 0 < bufferSize) (h : Runs count bufferSize crewStart events c) (hp : ∀ e ∈ events, PillsAlone e) :
    Attended isPill (monitor count c) :=
  attended_run (simulate_run hb (by simp [WaitersIdle, crewStart]) h hp) attended_crewStart

/-- The writers that come back to the queue without a signal. -/
def atWork (count : ℕ) (c : Crew) : Finset ℕ := {w ∈ Finset.range count | w ∉ c.waiting ∧ Returns (c.pool.writers w)}

theorem awake_phaseOf (waiting : Bool) (writer : Writer) :
    (phaseOf waiting writer).awake = true ↔ (waiting = true → writer ≠ .idle) ∧ Returns writer := by
  cases writer with
  | idle => cases waiting <;> simp [phaseOf, Phase.awake, Returns]
  | holding batch =>
    by_cases h : batch.countP (isPoison Queued.message) = 0
    · have hlive : ∀ x ∈ batch, isPoison Queued.message x = false := fun x hx => by
        simpa using List.countP_eq_zero.1 h x hx
      simpa [phaseOf, h, Phase.awake, Returns] using hlive
    · have hpill : ∃ x ∈ batch, isPoison Queued.message x = true := by
        simpa [List.countP_eq_zero] using h
      simpa [phaseOf, h, Phase.awake, Returns] using hpill
  | ended => simp [phaseOf, Phase.awake, Returns]

theorem tally_awake (hi : WaitersIdle count c) : tally Phase.awake (monitor count c).phase = (atWork count c).card := by
  have hphase : ∀ w, (phaseOf (decide (w ∈ c.waiting)) (c.pool.writers w)).awake = true ↔
      w ∉ c.waiting ∧ Returns (c.pool.writers w) := by
    intro w
    rw [awake_phaseOf, decide_eq_true_eq]
    exact and_congr_left fun _ => ⟨fun h hw => h hw (hi w hw).2, fun h hw => absurd hw h⟩
  rw [atWork, Finset.card_filter, Finset.sum_range, tally]
  refine Finset.sum_congr rfl fun w _ => ?_
  show (phaseOf (decide (w.val ∈ c.waiting)) (c.pool.writers w)).awake.toNat = _
  by_cases hw : (phaseOf (decide (w.val ∈ c.waiting)) (c.pool.writers w)).awake = true
  · rw [hw, if_pos ((hphase w).1 hw), Bool.toNat_true]
  · rw [if_neg (mt (hphase w).2 hw), Bool.eq_false_iff.2 hw, Bool.toNat_false]

theorem tally_sleeps (hi : WaitersIdle count c) : tally Phase.sleeps (monitor count c).phase = 0 ↔ c.waiting = ∅ := by
  rw [tally_eq_zero, Finset.eq_empty_iff_forall_notMem]
  constructor
  · intro h w hw
    obtain ⟨hlt, hidle⟩ := hi w hw
    simpa [monitor, hidle, hw, phaseOf, Phase.sleeps] using h ⟨w, hlt⟩
  · intro h w
    show (phaseOf (decide (w.val ∈ c.waiting)) (c.pool.writers w)).sleeps = false
    rw [decide_eq_false (h w)]
    cases c.pool.writers w with
    | idle => rfl
    | holding batch =>
      rw [phaseOf]
      split_ifs <;> rfl
    | ended => rfl

/-- While a writer waits, enough others will look at the queue again: one for each poison pill in it, and
one for all its other messages. -/
theorem waiting_or_attended (hb : 0 < bufferSize) (h : Runs count bufferSize crewStart events c)
    (hp : ∀ e ∈ events, PillsAlone e) :
    c.waiting = ∅ ∨ load isPill (c.pool.queue.map Queued.message) ≤ (atWork count c).card := by
  have hi := waitersIdle_run h
  rw [← tally_awake hi, ← tally_sleeps hi]
  exact attended_crew hb h hp

def twoFrames : List Event :=
  [.condWait 0, .condWait 1,
    .tsEnqueueMultiple [messageCreateWithFrameLen 5 (lit "a"), messageCreateWithFrameLen 6 (lit "b")] (some 1)]

theorem waiting_or_attended_twoFrames : ∃ c, Runs 2 10000 crewStart twoFrames c ∧ c.waiting = {0} ∧
    (c.waiting = ∅ ∨ load isPill (c.pool.queue.map Queued.message) ≤ (atWork 2 c).card) := by
  obtain ⟨c, hrun, hwait⟩ : ∃ c, Runs 2 10000 crewStart twoFrames c ∧ c.waiting = {0} :=
    exists_run_of_exec (P := fun c : Crew => c.waiting = {0}) (by decide)
  exact ⟨c, hrun, hwait, waiting_or_attended (by decide) hrun (by decide)⟩

/-- Two pills of one `ts_enqueue_multiple` signal once: the writer that takes the first one ends, and
the other writer sleeps on. -/
example : (exec (crewStep 2 10000) crewStart [.condWait 0, .condWait 1,
    .tsEnqueueMultiple [messagePoisonPillWithFrameLen, messagePoisonPillWithFrameLen] (some 0), .take 0, .write 0 [] 0]).map
      (fun c => (c.waiting, c.pool.queue.length, c.pool.writers 0)) = some ({1}, 1, .ended) := by
  decide

theorem items_acts (e : Event) : (acts count e).flatMap Act.items = e.messages := by
  cases e with
  | tsEnqueue m woken => simp [acts, Act.items, Event.messages]
  | tsEnqueueMultiple ms woken =>
    rw [acts]
    split_ifs with h
    · rw [h]
      rfl
    · simp [Act.items, Event.messages]
  | condWait w | condReturn w | take w | write w =>
    rw [acts]
    split_ifs <;> rfl

theorem items_flatMap_acts (events : List Event) :
    (events.flatMap (acts count)).flatMap Act.items = events.flatMap Event.messages := by
  rw [List.flatMap_assoc]
  exact congrArg (events.flatMap ·) (funext items_acts)

theorem ofConsumer_acts (hs : crewStep count bufferSize c e = some c') (hi : WaitersIdle count c) (hw : e.ofWriter = true) :
    (acts count e).countP Act.ofConsumer = 1 := by
  have hone : ∀ {w : ℕ} (hlt : w < count) (a : Fin count → Act (Fin count) MessageWithFrameLen),
      (a ⟨w, hlt⟩).ofConsumer = true → (if h : w < count then [a ⟨w, h⟩] else []).countP Act.ofConsumer = 1 := by
    intro w hlt a ha
    rw [dif_pos hlt, List.countP_singleton, if_pos ha]
  cases e with
  | tsEnqueue | tsEnqueueMultiple => simp [Event.ofWriter] at hw
  | condWait w =>
    simp only [crewStep] at hs
    split_ifs at hs with hlt
    exact hone hlt.1 .sleep rfl
  | condReturn w =>
    simp only [crewStep] at hs
    split_ifs at hs with hwait
    exact hone (hi w hwait).1 .wake rfl
  | take w =>
    simp only [crewStep] at hs
    split_ifs at hs
    obtain ⟨pool, hpool, -⟩ := Option.map_eq_some_iff.1 hs
    exact hone (poolStep_take hpool).1 .take rfl
  | write w registered accepted =>
    obtain ⟨pool, hpool, -⟩ := Option.map_eq_some_iff.1 hs
    exact hone (poolStep_write hpool).1 .done rfl

theorem ofWriter_le_acts {d : Crew} (h : Runs count bufferSize c events d) (hi : WaitersIdle count c) :
    events.countP Event.ofWriter ≤ (events.flatMap (acts count)).countP Act.ofConsumer := by
  induction h with
  | nil => exact le_rfl
  | @snoc t u events e prior last ih =>
    have hidle : WaitersIdle count t := prior.invariant hi fun _ _ _ hi hs => hi.step hs
    rw [List.countP_append, List.flatMap_append, List.countP_append, List.flatMap_singleton]
    refine Nat.add_le_add ih ?_
    cases hw : e.ofWriter with
    | false => simp [hw]
    | true =>
      rw [ofConsumer_acts last hidle hw]
      simp [hw]

/-- A writer that is not at its end can do something once the queue has as many pills as it needs. -/
theorem Closing.writer_can_step {w : ℕ} (h : Closing isPill (monitor count c)) (ha : Attended isPill (monitor count c))
    (hi : WaitersIdle count c) (hw : w < count) (hne : c.pool.writers w ≠ .ended) :
    ∃ e : Event, e.ofWriter = true ∧ crewStep count bufferSize c e ≠ none := by
  have hempty : c.waiting = ∅ := (tally_sleeps hi).1 (h.nobody_asleep ha)
  cases hwr : c.pool.writers w with
  | idle =>
    have hready : (monitor count c).phase ⟨w, hw⟩ = .ready := by simp [monitor, hwr, hempty, phaseOf]
    have hq : c.pool.queue ≠ [] := by simpa [monitor] using h.queue_ne_nil hready
    refine ⟨.take w, rfl, ?_⟩
    simp [crewStep, hempty, poolStep, hw, hwr, hq]
  | holding batch =>
    refine ⟨.write w [] 0, rfl, ?_⟩
    simp only [crewStep, poolStep, if_pos hw, hwr]
    cases fillBuffer Queued.message batch [] <;> simp
  | ended => exact absurd hwr hne

/-- The calls bring a pill for every writer, whatever else is enqueued around them. -/
theorem processKillThreads_pills {woken : ℕ → Option ℕ} (h : (processKillThreads count woken).Sublist events) :
    count ≤ (events.flatMap Event.messages).countP isPill := by
  have hall : ∀ m ∈ (processKillThreads count woken).flatMap Event.messages, isPill m = true := by
    simp only [processKillThreads, List.flatMap_map, Event.messages, List.mem_flatMap, List.mem_singleton]
    rintro m ⟨i, -, rfl⟩
    rfl
  calc
    count = ((processKillThreads count woken).flatMap Event.messages).length := by
      simp [processKillThreads, List.length_flatMap, List.map_map, Function.comp_def, Event.messages]
    _ = ((processKillThreads count woken).flatMap Event.messages).countP isPill := (List.countP_eq_length.2 hall).symm
    _ ≤ (events.flatMap Event.messages).countP isPill := (h.flatMap Event.messages).countP_le

/-- After the calls of `process_kill_threads` nobody waits any more, the writers take a bounded number of
steps, and when they can take none they have all ended. -/
theorem writers_end {more : List Event} {d : Crew} {woken : ℕ → Option ℕ} (hb : 0 < bufferSize)
    (h : Runs count bufferSize crewStart events c) (hk : (processKillThreads count woken).Sublist events)
    (hm : Runs count bufferSize c more d) (hp : ∀ e ∈ events ++ more, PillsAlone e) :
    d.waiting = ∅ ∧
      more.countP Event.ofWriter ≤ 2 * (c.pool.queue.length + (more.flatMap Event.messages).length) + count ∧
      ((∀ e : Event, e.ofWriter = true → crewStep count bufferSize d e = none) →
        ∀ w < count, d.pool.writers w = .ended) := by
  have hpe : ∀ e ∈ events, PillsAlone e := fun e he => hp e (List.mem_append_left _ he)
  have hpm : ∀ e ∈ more, PillsAlone e := fun e he => hp e (List.mem_append_right _ he)
  have hic := waitersIdle_run h
  have hid := waitersIdle_run (h.append hm)
  have hac := attended_crew hb h hpe
  have had := attended_crew hb (h.append hm) hp
  have hsim := simulate_run hb hic hm hpm
  have hclosing : Closing isPill (monitor count c) := by
    have hpills := processKillThreads_pills hk
    have hstops := run_stops (simulate_run hb (by simp [WaitersIdle, crewStart]) h hpe)
    rw [stops, items_flatMap_acts] at hstops
    rw [Closing, Fintype.card_fin]
    omega
  have hclosed : Closing isPill (monitor count d) := hsim.invariant hclosing fun _ _ _ hi hs => hi.step hs
  refine ⟨(tally_sleeps hid).1 (hclosed.nobody_asleep had), ?_, fun hstuck w hw => ?_⟩
  · have hwork := hclosing.run_le hac hsim
    have hevents := ofWriter_le_acts hm hic
    have hat : tally Phase.works (monitor count c).phase ≤ count := by
      simpa using tally_le_card Phase.works (monitor count c).phase
    have hlen : (monitor count c).queue.length = c.pool.queue.length := by simp [monitor]
    rw [items_flatMap_acts] at hwork
    rw [workLeft, workLeft, hlen] at hwork
    omega
  · by_contra hne
    obtain ⟨e, he, hcan⟩ := @Closing.writer_can_step count bufferSize d w hclosed had hid hw hne
    exact hcan (hstuck e he)

def shutdownRun : List Event :=
  [.condWait 0, .condWait 1, .tsEnqueue (messageCreateWithFrameLen 5 (lit "a")) (some 1)] ++
    processKillThreads 2 fun i => if i = 0 then some 0 else none

def lastSteps : List Event := [.take 1, .write 1 [true] 1, .take 0, .write 0 [] 0]

theorem writers_end_shutdownRun :
    ∃ c d, Runs 2 10000 crewStart shutdownRun c ∧ Runs 2 10000 c lastSteps d ∧ d.waiting = ∅ ∧
      d.pool.writers 0 = .ended ∧ d.pool.writers 1 = .ended := by
  have hexec : (exec (crewStep 2 10000) crewStart (shutdownRun ++ lastSteps)).map
      (fun d : Crew => decide (d.pool.writers 0 = .ended ∧ d.pool.writers 1 = .ended)) = some true := by decide
  obtain ⟨d, hd, hended⟩ := Option.map_eq_some_iff.1 hexec
  rw [exec_append] at hd
  obtain ⟨c, hc, hd⟩ := Option.bind_eq_some_iff.1 hd
  have hends := writers_end (by decide) (run_of_exec hc) (List.sublist_append_right _ _) (run_of_exec hd) (by decide)
  exact ⟨c, d, run_of_exec hc, run_of_exec hd, hends.1, of_decide_eq_true hended⟩

end StompBroker.WriterWait
