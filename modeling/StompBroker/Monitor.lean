import StompBroker.TransitionSystem

/-! A queue that its consumers guard with one condition: they sleep while it is empty, a producer
wakes one of them, and a stop item ends the consumer that takes it. -/
namespace StompBroker.Monitor
open TransitionSystem
variable {ι α : Type*} [Fintype ι]

/-- A consumer is at the queue or at work with a batch; it comes back from work unless its batch had
a stop item. -/
inductive Phase
  | ready | asleep | busy | stopping | gone
  deriving DecidableEq, Repr

def Phase.awake : Phase → Bool
  | .ready | .busy => true
  | _ => false

def Phase.sleeps : Phase → Bool
  | .asleep => true
  | _ => false

def Phase.leaves : Phase → Bool
  | .stopping | .gone => true
  | _ => false

def Phase.works : Phase → Bool
  | .busy | .stopping => true
  | _ => false

def tally (P : Phase → Bool) (phase : ι → Phase) : ℕ := ∑ w, (P (phase w)).toNat

section Tally
variable {P Q : Phase → Bool} {phase : ι → Phase} {w : ι}

theorem tally_update [DecidableEq ι] (P : Phase → Bool) (phase : ι → Phase) (w : ι) (new : Phase) :
    tally P (Function.update phase w new) + (P (phase w)).toNat = tally P phase + (P new).toNat := by
  have hnew := Finset.sum_update_of_mem (Finset.mem_univ w) (fun v => (P (phase v)).toNat) ((P new).toNat)
  have hold := Finset.add_sum_erase Finset.univ (fun v => (P (phase v)).toNat) (Finset.mem_univ w)
  have hcomp : (fun v => (P (Function.update phase w new v)).toNat) =
      Function.update (fun v => (P (phase v)).toNat) w (P new).toNat := by
    funext v
    by_cases hv : v = w
    · subst hv
      simp
    · simp [hv]
  rw [Finset.sdiff_singleton_eq_erase] at hnew
  rw [tally, tally, hcomp, hnew]
  omega

theorem tally_pos (hw : P (phase w) = true) : 0 < tally P phase := by
  refine Finset.sum_pos' (fun _ _ => Nat.zero_le _) ⟨w, Finset.mem_univ w, ?_⟩
  simp [hw]

theorem exists_of_tally_pos (h : 0 < tally P phase) : ∃ w, P (phase w) = true := by
  by_contra hno
  have hzero : tally P phase = 0 := Finset.sum_eq_zero fun w _ => by
    have : P (phase w) = false := by simpa using not_exists.1 hno w
    simp [this]
  omega

theorem tally_eq_zero : tally P phase = 0 ↔ ∀ w, P (phase w) = false := by
  rw [← Nat.le_zero, ← not_lt]
  constructor
  · intro h w
    by_contra hw
    exact h (tally_pos (by simpa using hw))
  · intro h hpos
    obtain ⟨w, hw⟩ := exists_of_tally_pos hpos
    simp [h w] at hw

theorem tally_partition (phase : ι → Phase) :
    tally Phase.awake phase + tally Phase.sleeps phase + tally Phase.leaves phase = Fintype.card ι := by
  rw [tally, tally, tally, ← Finset.sum_add_distrib, ← Finset.sum_add_distrib]
  rw [Finset.sum_congr rfl (g := fun _ => 1), Finset.sum_const, Finset.card_univ, smul_eq_mul, mul_one]
  intro w _
  cases phase w <;> rfl

theorem tally_le_card (P : Phase → Bool) (phase : ι → Phase) : tally P phase ≤ Fintype.card ι := by
  refine (Finset.sum_le_card_nsmul Finset.univ _ 1 fun w _ => Bool.toNat_le _).trans_eq ?_
  rw [Finset.card_univ, smul_eq_mul, mul_one]

end Tally

structure State (ι α : Type*) where
  queue : List α
  phase : ι → Phase

inductive Act (ι α : Type*)
  | put (items : List α)
  | sleep (w : ι)
  | wake (w : ι)
  | take (w : ι)
  | done (w : ι)
  deriving DecidableEq, Repr

def Act.items : Act ι α → List α
  | .put items => items
  | _ => []

def Act.ofConsumer : Act ι α → Bool
  | .put _ => false
  | _ => true

variable [DecidableEq ι] (isStop : α → Bool)

/-- A producer leaves the consumers as they are only when nobody sleeps. -/
inductive Signalled (phase : ι → Phase) : (ι → Phase) → Prop
  | nobody (h : ∀ w, phase w ≠ .asleep) : Signalled phase phase
  | one (w : ι) (h : phase w = .asleep) : Signalled phase (Function.update phase w .ready)

inductive Step : State ι α → Act ι α → State ι α → Prop
  | put {s : State ι α} {queue : List α} {phase : ι → Phase} (items : List α)
      (hkind : items.length = 1 ∨ ∀ x ∈ items, isStop x = false) (hq : queue.Perm (s.queue ++ items))
      (hs : Signalled s.phase phase) : Step s (.put items) ⟨queue, phase⟩
  | sleep {s : State ι α} (w : ι) (hw : s.phase w = .ready) (hq : s.queue = []) :
      Step s (.sleep w) { s with phase := Function.update s.phase w .asleep }
  | wake {s : State ι α} (w : ι) (hw : s.phase w = .asleep) :
      Step s (.wake w) { s with phase := Function.update s.phase w .ready }
  | take {s : State ι α} (w : ι) (batch rest : List α) (hw : s.phase w = .ready)
      (hq : (batch ++ rest).Perm s.queue) (hb : batch ≠ []) (hstop : batch.countP isStop ≤ 1) :
      Step s (.take w)
        ⟨rest, Function.update s.phase w (if batch.countP isStop = 0 then .busy else .stopping)⟩
  | done {s : State ι α} (w : ι) (hw : s.phase w = .busy) :
      Step s (.done w) { s with phase := Function.update s.phase w .ready }
  | leave {s : State ι α} (w : ι) (hw : s.phase w = .stopping) :
      Step s (.done w) { s with phase := Function.update s.phase w .gone }

/-- The consumers that a queue needs: one for each stop item and one for all the others. -/
def load (queue : List α) : ℕ := queue.countP isStop + if ∃ x ∈ queue, isStop x = false then 1 else 0

/-- Nobody sleeps, or enough consumers are awake and come back to the queue. -/
def Attended (s : State ι α) : Prop :=
  tally Phase.sleeps s.phase = 0 ∨ load isStop s.queue ≤ tally Phase.awake s.phase

variable {isStop}

section Load
variable {queue queue' items : List α}

theorem load_nil : load isStop [] = 0 := by simp [load]

theorem eq_nil_of_load (h : load isStop queue = 0) : queue = [] := by
  obtain ⟨hstop, hrest⟩ := Nat.add_eq_zero_iff.1 h
  refine List.eq_nil_iff_forall_not_mem.2 fun x hx => ?_
  have hnot : isStop x = false := by simpa using List.countP_eq_zero.1 hstop x hx
  rw [if_pos ⟨x, hx, hnot⟩] at hrest
  cases hrest

theorem load_perm (h : queue.Perm queue') : load isStop queue = load isStop queue' := by
  have hmem : (∃ x ∈ queue, isStop x = false) ↔ ∃ x ∈ queue', isStop x = false := by simp [h.mem_iff]
  rw [load, load, h.countP_eq, if_congr hmem rfl rfl]

theorem load_append_le (h : items.length = 1 ∨ ∀ x ∈ items, isStop x = false) :
    load isStop (queue ++ items) ≤ load isStop queue + 1 := by
  have hmem : (∃ x ∈ queue ++ items, isStop x = false) ↔
      (∃ x ∈ queue, isStop x = false) ∨ ∃ x ∈ items, isStop x = false := by
    simp [or_and_right, exists_or]
  have hone : items.countP isStop + (if ∃ x ∈ items, isStop x = false then 1 else 0) ≤ 1 := by
    rcases h with h | h
    · obtain ⟨x, rfl⟩ := List.length_eq_one_iff.1 h
      cases hx : isStop x <;> simp [hx]
    · rw [List.countP_eq_zero.2 fun x hx => by simp [h x hx], Nat.zero_add]
      split_ifs <;> omega
  rw [load, load, List.countP_append, if_congr hmem rfl rfl]
  by_cases hq : ∃ x ∈ queue, isStop x = false
  · rw [if_pos (Or.inl hq), if_pos hq]
    omega
  · rw [if_neg hq, if_congr (or_iff_right hq) rfl rfl]
    omega

/-- A batch with a stop item takes its share of the load along. -/
theorem load_rest_le {batch rest : List α} (h : (batch ++ rest).Perm queue) :
    load isStop rest + batch.countP isStop ≤ load isStop queue := by
  rw [← load_perm h, load, load, List.countP_append]
  have hmem : (∃ x ∈ rest, isStop x = false) → ∃ x ∈ batch ++ rest, isStop x = false :=
    fun ⟨x, hx, hs⟩ => ⟨x, List.mem_append_right _ hx, hs⟩
  split_ifs with h1 h2 h2
  · omega
  · exact absurd (hmem h1) h2
  · omega
  · omega

end Load

section Steps
variable {s t : State ι α} {a : Act ι α} {acts : List (Act ι α)}

theorem tally_signalled {phase phase' : ι → Phase} (h : Signalled phase phase') :
    tally Phase.sleeps phase' = 0 ∨ tally Phase.sleeps phase' + 1 = tally Phase.sleeps phase ∧
      tally Phase.awake phase' = tally Phase.awake phase + 1 := by
  cases h with
  | nobody h =>
    refine .inl (tally_eq_zero.2 fun w => ?_)
    cases hw : phase w <;> simp_all [Phase.sleeps]
  | one w h =>
    have hsleeps := tally_update Phase.sleeps phase w .ready
    have hawake := tally_update Phase.awake phase w .ready
    simp only [h, Phase.sleeps, Phase.awake, Bool.toNat_true, Bool.toNat_false, Nat.add_zero] at hsleeps hawake
    exact .inr ⟨hsleeps, hawake⟩

theorem attended_update {queue : List α} {w : ι} {new : Phase} (hsleeps : (s.phase w).sleeps = new.sleeps)
    (hawake : load isStop queue + (s.phase w).awake.toNat ≤ load isStop s.queue + new.awake.toNat)
    (h : Attended isStop s) : Attended isStop ⟨queue, Function.update s.phase w new⟩ := by
  have hs := tally_update Phase.sleeps s.phase w new
  have ha := tally_update Phase.awake s.phase w new
  rw [hsleeps] at hs
  rcases h with h | h
  · left
    show tally Phase.sleeps (Function.update s.phase w new) = 0
    omega
  · right
    show load isStop queue ≤ tally Phase.awake (Function.update s.phase w new)
    omega

theorem Attended.step (h : Attended isStop s) (hs : Step isStop s a t) : Attended isStop t := by
  cases hs with
  | @put queue phase items hkind hq hsig =>
    have hload : load isStop queue ≤ load isStop s.queue + 1 := load_perm hq ▸ load_append_le hkind
    rcases tally_signalled hsig with hnone | ⟨hsleeps, hawake⟩
    · exact .inl hnone
    · right
      rcases h with h | h
      · omega
      · show load isStop queue ≤ tally Phase.awake phase
        omega
  | sleep w hw hq =>
    right
    show load isStop s.queue ≤ _
    rw [hq, load_nil]
    exact Nat.zero_le _
  | wake w hw =>
    have hs := tally_update Phase.sleeps s.phase w .ready
    have ha := tally_update Phase.awake s.phase w .ready
    simp only [hw, Phase.sleeps, Phase.awake, Bool.toNat_true, Bool.toNat_false, Nat.add_zero] at hs ha
    right
    show load isStop s.queue ≤ tally Phase.awake (Function.update s.phase w .ready)
    rcases h with h | h
    · omega
    · omega
  | take w batch rest hw hq hb hstop =>
    have hload : load isStop rest + batch.countP isStop ≤ load isStop s.queue := load_rest_le hq
    split_ifs with hnone
    · refine attended_update (by simp [hw, Phase.sleeps]) ?_ h
      simp only [hw, Phase.awake, Bool.toNat_true]
      omega
    · refine attended_update (by simp [hw, Phase.sleeps]) ?_ h
      simp only [hw, Phase.awake, Bool.toNat_true, Bool.toNat_false]
      omega
  | done w hw => exact attended_update (by simp [hw, Phase.sleeps]) (by simp [hw, Phase.awake]) h
  | leave w hw => exact attended_update (by simp [hw, Phase.sleeps]) (by simp [hw, Phase.awake]) h

/-- Whatever the consumers and producers do, somebody who is awake comes back for what is in the queue. -/
theorem attended_run (h : Run (Step isStop) s acts t) (hs : Attended isStop s) : Attended isStop t :=
  h.invariant hs fun _ _ _ hi hstep => hi.step hstep

def stops (isStop : α → Bool) (acts : List (Act ι α)) : ℕ := (acts.flatMap Act.items).countP isStop

theorem leaves_signalled {phase phase' : ι → Phase} (h : Signalled phase phase') :
    tally Phase.leaves phase' = tally Phase.leaves phase := by
  cases h with
  | nobody => rfl
  | one w hw => simpa [hw, Phase.leaves] using tally_update Phase.leaves phase w .ready

theorem step_stops (hs : Step isStop s a t) :
    t.queue.countP isStop + tally Phase.leaves t.phase =
      s.queue.countP isStop + tally Phase.leaves s.phase + a.items.countP isStop := by
  cases hs with
  | put items hkind hq hsig =>
    rw [hq.countP_eq, leaves_signalled hsig, List.countP_append, Act.items]
    omega
  | sleep w hw hq => simpa [hw, Phase.leaves, Act.items] using tally_update Phase.leaves s.phase w .asleep
  | wake w hw => simpa [hw, Phase.leaves, Act.items] using tally_update Phase.leaves s.phase w .ready
  | take w batch rest hw hq hb hstop =>
    have hcount := hq.countP_eq isStop
    rw [List.countP_append] at hcount
    have hleaves := tally_update Phase.leaves s.phase w (if batch.countP isStop = 0 then .busy else .stopping)
    split_ifs at hleaves with hnone
    · simp only [hw, Phase.leaves, Bool.toNat_false, Nat.add_zero] at hleaves
      simp only [Act.items, List.countP_nil, if_pos hnone]
      omega
    · simp only [hw, Phase.leaves, Bool.toNat_false, Bool.toNat_true, Nat.add_zero] at hleaves
      simp only [Act.items, List.countP_nil, if_neg hnone]
      omega
  | done w hw => simpa [hw, Phase.leaves, Act.items] using tally_update Phase.leaves s.phase w .ready
  | leave w hw => simpa [hw, Phase.leaves, Act.items] using tally_update Phase.leaves s.phase w .gone

theorem run_stops (h : Run (Step isStop) s acts t) :
    t.queue.countP isStop + tally Phase.leaves t.phase =
      s.queue.countP isStop + tally Phase.leaves s.phase + stops isStop acts := by
  induction h with
  | nil => rfl
  | snoc _ last ih =>
    rw [step_stops last, ih, stops, stops, List.flatMap_append, List.countP_append, List.flatMap_singleton]
    omega

end Steps

section Shutdown
variable {s t : State ι α} {a : Act ι α} {acts : List (Act ι α)}

/-- As many stop items as consumers are in the queue or taken. -/
def Closing (isStop : α → Bool) (s : State ι α) : Prop :=
  Fintype.card ι ≤ s.queue.countP isStop + tally Phase.leaves s.phase

theorem Closing.step (h : Closing isStop s) (hs : Step isStop s a t) : Closing isStop t := by
  have := step_stops hs
  rw [Closing] at h ⊢
  omega

omit [DecidableEq ι] in
theorem Closing.nobody_asleep (h : Closing isStop s) (ha : Attended isStop s) : tally Phase.sleeps s.phase = 0 := by
  have hall := tally_partition s.phase
  rcases ha with ha | ha
  · exact ha
  · rw [Closing] at h
    rw [load] at ha
    omega

omit [DecidableEq ι] in
theorem Closing.queue_ne_nil (h : Closing isStop s) {w : ι} (hw : s.phase w = .ready) : s.queue ≠ [] := by
  intro hq
  have hall := tally_partition s.phase
  have hpos : 0 < tally Phase.awake s.phase := tally_pos (w := w) (by simp [hw, Phase.awake])
  rw [Closing, hq, List.countP_nil] at h
  omega

/-- What is left to do: twice the queue, and the batches at hand. -/
def workLeft (s : State ι α) : ℕ := 2 * s.queue.length + tally Phase.works s.phase

theorem works_signalled {phase phase' : ι → Phase} (h : Signalled phase phase') :
    tally Phase.works phase' = tally Phase.works phase := by
  cases h with
  | nobody => rfl
  | one w hw => simpa [hw, Phase.works] using tally_update Phase.works phase w .ready

/-- Every act of a consumer brings the end nearer, and a producer puts it off by what it puts. -/
theorem Closing.workLeft_step (h : Closing isStop s) (ha : Attended isStop s) (hs : Step isStop s a t) :
    workLeft t + a.ofConsumer.toNat ≤ workLeft s + 2 * a.items.length := by
  cases hs with
  | put items hkind hq hsig =>
    simp only [workLeft, works_signalled hsig, hq.length_eq, List.length_append, Act.items, Act.ofConsumer,
      Bool.toNat_false]
    omega
  | sleep w hw hq => exact absurd hq (h.queue_ne_nil hw)
  | wake w hw =>
    have hsleeps := tally_eq_zero.1 (h.nobody_asleep ha) w
    simp [hw, Phase.sleeps] at hsleeps
  | take w batch rest hw hq hb hstop =>
    have hlen := hq.length_eq
    have hpos := List.length_pos_of_ne_nil hb
    have hworks := tally_update Phase.works s.phase w (if batch.countP isStop = 0 then .busy else .stopping)
    have hone : (Phase.works (if batch.countP isStop = 0 then .busy else .stopping)).toNat = 1 := by
      split_ifs <;> rfl
    rw [hone, hw] at hworks
    simp only [Phase.works, Bool.toNat_false, Nat.add_zero] at hworks
    rw [List.length_append] at hlen
    simp only [workLeft, hworks, Act.items, Act.ofConsumer, Bool.toNat_true, List.length_nil]
    omega
  | done w hw =>
    have hworks := tally_update Phase.works s.phase w .ready
    simp only [hw, Phase.works, Bool.toNat_true, Bool.toNat_false, Nat.add_zero] at hworks
    simp only [workLeft, ← hworks, Act.items, Act.ofConsumer, Bool.toNat_true, List.length_nil]
    omega
  | leave w hw =>
    have hworks := tally_update Phase.works s.phase w .gone
    simp only [hw, Phase.works, Bool.toNat_true, Bool.toNat_false, Nat.add_zero] at hworks
    simp only [workLeft, ← hworks, Act.items, Act.ofConsumer, Bool.toNat_true, List.length_nil]
    omega

/-- The consumers can do no more than the work that is left and what is put meanwhile. -/
theorem Closing.run_le (h : Closing isStop s) (ha : Attended isStop s) (hr : Run (Step isStop) s acts t) :
    workLeft t + acts.countP Act.ofConsumer ≤ workLeft s + 2 * (acts.flatMap Act.items).length := by
  induction hr with
  | nil => simp
  | @snoc t u acts a prior last ih =>
    have hclosing : Closing isStop t := prior.invariant h fun _ _ _ hi hstep => hi.step hstep
    have hlast := hclosing.workLeft_step (attended_run prior ha) last
    have hone : [a].countP Act.ofConsumer = a.ofConsumer.toNat := by cases ha : a.ofConsumer <;> simp [ha]
    rw [List.countP_append, hone, List.flatMap_append, List.length_append, List.flatMap_singleton]
    omega

end Shutdown

end StompBroker.Monitor
