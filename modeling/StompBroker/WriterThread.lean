import StompBroker.Dataframe
import StompBroker.GreedyPrefix

/-! The batch that a writer thread takes from the output queue. The elements of a queue are
pointers, so the loop is written for any type of elements that carry a message. -/
namespace StompBroker.WriterThread
open SessionStorage Message Dataframe GreedyPrefix
variable {α : Type*}

def messagesBatchSize : ℕ := 1000

/-- The loop under the queue lock: the messages picked up and the queue without them. A zero
`firstFd` takes the next message without a look at its length. -/
def pickUp (msg : α → MessageWithFrameLen) (index : ℕ) (firstFd : Fd) (remainingLen : ℤ) :
    List α → List α × List α
  | [] => ([], [])
  | x :: q =>
      if ¬ (index < messagesBatchSize ∧ remainingLen > 0) then ([], x :: q)
      else if (msg x).fd = poisonFd then ([x], q)
      else if firstFd = 0 then
        let (batch, rest) := pickUp msg (index + 1) (msg x).fd (remainingLen - (msg x).frameLen) q
        (x :: batch, rest)
      else if (msg x).fd ≠ firstFd then
        let (batch, rest) := pickUp msg index firstFd remainingLen q
        (batch, x :: rest)
      else if ((msg x).frameLen : ℤ) > remainingLen then ([], x :: q)
      else
        let (batch, rest) := pickUp msg (index + 1) firstFd (remainingLen - (msg x).frameLen) q
        (x :: batch, rest)

def tsDequeueMultipleMessagesForSameFd (msg : α → MessageWithFrameLen) (q : List α)
    (bufferSize : ℕ) : List α × List α :=
  pickUp msg 0 0 bufferSize q

/-- What the writer does with a message of its batch: end the thread at a poison pill, drop the
message of a disconnected client, or copy it to the write buffer. -/
inductive Look
  | poisoned | disconnected | copied
  deriving DecidableEq, Repr

def look (registered : Bool) (m : MessageWithFrameLen) : Look :=
  if m.fd = poisonFd then .poisoned else if registered then .copied else .disconnected

/-- The loop over a batch: the messages in the write buffer, `none` when the thread ends. The
answers of the session table come one by one, as other threads change it in between. -/
def fillBuffer (msg : α → MessageWithFrameLen) : List α → List Bool → Option (List α)
  | [], _ => some []
  | x :: batch, registered =>
      match look (registered.headD false) (msg x) with
      | .poisoned => none
      | .disconnected => fillBuffer msg batch registered.tail
      | .copied => (fillBuffer msg batch registered.tail).map (x :: ·)

def socket (m : MessageWithFrameLen) : Fd := sessionWithoutFlags m.fd

/-- The socket a batch is written to: the one of the message looked at last. -/
def targetFd (msg : α → MessageWithFrameLen) (batch : List α) : Fd :=
  (batch.getLast?.map fun x => socket (msg x)).getD 0

def isPoison (msg : α → MessageWithFrameLen) (x : α) : Bool := (msg x).fd == poisonFd

def live (msg : α → MessageWithFrameLen) (q : List α) : List α := q.takeWhile fun x => !isPoison msg x

/-- The messages that one batch can hold, in order: those of descriptor zero at the front, the
first other one, and the later ones of its descriptor. -/
def candidates (msg : α → MessageWithFrameLen) : List α → List α
  | [] => []
  | x :: q =>
      if isPoison msg x then []
      else if (msg x).fd = 0 then x :: candidates msg q
      else x :: (live msg q).filter fun y => (msg y).fd == (msg x).fd

/-- How many of them are picked up without a look at their length. -/
def alwaysPicked (msg : α → MessageWithFrameLen) : List α → ℕ
  | [] => 0
  | x :: q =>
      if isPoison msg x then 0
      else if (msg x).fd = 0 then alwaysPicked msg q + 1
      else 1

variable {msg : α → MessageWithFrameLen}

def sendable (msg : α → MessageWithFrameLen) (batch : List α) : List α :=
  batch.filter fun x => !isPoison msg x

def frameLenOf (msg : α → MessageWithFrameLen) (x : α) : ℕ := (msg x).frameLen

theorem live_cons_poison {x : α} (q : List α) (h : isPoison msg x = true) :
    live msg (x :: q) = [] := by
  simp [live, h]

theorem live_cons {x : α} (q : List α) (h : isPoison msg x = false) :
    live msg (x :: q) = x :: live msg q := by
  simp [live, h]

theorem isPoison_iff {x : α} : isPoison msg x = true ↔ (msg x).fd = poisonFd := by
  simp [isPoison]

theorem isPoison_eq_false {x : α} : isPoison msg x = false ↔ (msg x).fd ≠ poisonFd := by
  simp [isPoison]

section Branches
variable {index : ℕ} {firstFd : Fd} {remainingLen : ℤ} {x : α} (q : List α)

theorem pickUp_full (h : ¬ (index < messagesBatchSize ∧ remainingLen > 0)) :
    pickUp msg index firstFd remainingLen (x :: q) = ([], x :: q) := by
  rw [pickUp, if_pos h]

theorem pickUp_poison (h : index < messagesBatchSize ∧ remainingLen > 0)
    (hp : isPoison msg x = true) :
    pickUp msg index firstFd remainingLen (x :: q) = ([x], q) := by
  rw [pickUp, if_neg (not_not.mpr h), if_pos (isPoison_iff.mp hp)]

theorem pickUp_first (h : index < messagesBatchSize ∧ remainingLen > 0)
    (hp : isPoison msg x = false) (h0 : firstFd = 0) :
    pickUp msg index firstFd remainingLen (x :: q) =
      (x :: (pickUp msg (index + 1) (msg x).fd (remainingLen - (msg x).frameLen) q).1,
        (pickUp msg (index + 1) (msg x).fd (remainingLen - (msg x).frameLen) q).2) := by
  rw [pickUp, if_neg (not_not.mpr h), if_neg (isPoison_eq_false.mp hp), if_pos h0]

theorem pickUp_other (h : index < messagesBatchSize ∧ remainingLen > 0)
    (hp : isPoison msg x = false) (h0 : firstFd ≠ 0) (hfd : (msg x).fd ≠ firstFd) :
    pickUp msg index firstFd remainingLen (x :: q) =
      ((pickUp msg index firstFd remainingLen q).1,
        x :: (pickUp msg index firstFd remainingLen q).2) := by
  rw [pickUp, if_neg (not_not.mpr h), if_neg (isPoison_eq_false.mp hp), if_neg h0, if_pos hfd]

theorem pickUp_tooLarge (h : index < messagesBatchSize ∧ remainingLen > 0)
    (hp : isPoison msg x = false) (h0 : firstFd ≠ 0) (hfd : (msg x).fd = firstFd)
    (hl : ((msg x).frameLen : ℤ) > remainingLen) :
    pickUp msg index firstFd remainingLen (x :: q) = ([], x :: q) := by
  rw [pickUp, if_neg (not_not.mpr h), if_neg (isPoison_eq_false.mp hp), if_neg h0,
    if_neg (not_not.mpr hfd), if_pos hl]

theorem pickUp_fits (h : index < messagesBatchSize ∧ remainingLen > 0)
    (hp : isPoison msg x = false) (h0 : firstFd ≠ 0) (hfd : (msg x).fd = firstFd)
    (hl : ¬ ((msg x).frameLen : ℤ) > remainingLen) :
    pickUp msg index firstFd remainingLen (x :: q) =
      (x :: (pickUp msg (index + 1) firstFd (remainingLen - (msg x).frameLen) q).1,
        (pickUp msg (index + 1) firstFd (remainingLen - (msg x).frameLen) q).2) := by
  rw [pickUp, if_neg (not_not.mpr h), if_neg (isPoison_eq_false.mp hp), if_neg h0,
    if_neg (not_not.mpr hfd), if_neg hl]

end Branches

theorem sendable_cons {x : α} (batch : List α) (h : isPoison msg x = false) :
    sendable msg (x :: batch) = x :: sendable msg batch := by
  simp [sendable, h]

theorem isGreatest_of_full {index free : ℕ} {remainingLen : ℤ} (c : List α)
    (h : ¬ (index < messagesBatchSize ∧ remainingLen > 0)) :
    IsGreatest {k | Admitted (frameLenOf msg) (messagesBatchSize - index) remainingLen free c k} 0 := by
  apply isGreatest_zero
  by_cases hi : index < messagesBatchSize
  · exact .inr (.inr (.inl (not_lt.mp fun hr => h ⟨hi, hr⟩)))
  · exact .inr (.inl (by omega))

theorem pickUp_same (msg : α → MessageWithFrameLen) (index : ℕ) {firstFd : Fd} (remainingLen : ℤ) (q : List α)
    (h0 : firstFd ≠ 0) :
    ∃ k, IsGreatest {k | Admitted (frameLenOf msg) (messagesBatchSize - index) remainingLen 0
        ((live msg q).filter fun y => (msg y).fd == firstFd) k} k ∧
      sendable msg (pickUp msg index firstFd remainingLen q).1 =
        ((live msg q).filter fun y => (msg y).fd == firstFd).take k := by
  induction q generalizing index remainingLen with
  | nil => exact ⟨0, isGreatest_zero (.inl rfl), rfl⟩
  | cons x q ih =>
    by_cases h : index < messagesBatchSize ∧ remainingLen > 0
    swap
    · exact ⟨0, isGreatest_of_full _ h, by rw [pickUp_full q h]; rfl⟩
    cases hp : isPoison msg x with
    | true =>
      refine ⟨0, isGreatest_zero (.inl (by simp [live_cons_poison q hp])), ?_⟩
      rw [pickUp_poison q h hp]
      simp [sendable, hp]
    | false =>
      by_cases hfd : (msg x).fd = firstFd
      · rw [live_cons q hp, List.filter_cons_of_pos (by simp [hfd])]
        by_cases hl : ((msg x).frameLen : ℤ) > remainingLen
        · refine ⟨0, isGreatest_zero (.inr (.inr (.inr ⟨x, _, rfl, rfl, hl⟩))), ?_⟩
          rw [pickUp_tooLarge q h hp h0 hfd hl]
          rfl
        · obtain ⟨k, hk, hb⟩ := ih (index + 1) (remainingLen - (msg x).frameLen)
          refine ⟨k + 1, isGreatest_cons (by omega) h.2 (fun _ => not_lt.mp hl) ?_, ?_⟩
          · rwa [Nat.sub_sub]
          · rw [pickUp_fits q h hp h0 hfd hl, sendable_cons _ hp, hb, List.take_succ_cons]
      · rw [live_cons q hp, List.filter_cons_of_neg (by simp [hfd]), pickUp_other q h hp h0 hfd]
        exact ih index remainingLen

/-- A batch holds the longest admitted run of the candidates, apart from a poison pill. -/
theorem pickUp_candidates (msg : α → MessageWithFrameLen) (index : ℕ) (remainingLen : ℤ)
    (q : List α) :
    ∃ k, IsGreatest {k | Admitted (frameLenOf msg) (messagesBatchSize - index) remainingLen
        (alwaysPicked msg q) (candidates msg q) k} k ∧
      sendable msg (pickUp msg index 0 remainingLen q).1 = (candidates msg q).take k := by
  induction q generalizing index remainingLen with
  | nil => exact ⟨0, isGreatest_zero (.inl rfl), rfl⟩
  | cons x q ih =>
    by_cases h : index < messagesBatchSize ∧ remainingLen > 0
    swap
    · exact ⟨0, isGreatest_of_full _ h, by rw [pickUp_full q h]; rfl⟩
    cases hp : isPoison msg x with
    | true =>
      refine ⟨0, isGreatest_zero (.inl (by simp [candidates, hp])), ?_⟩
      rw [pickUp_poison q h hp]
      simp [sendable, hp]
    | false =>
      by_cases hz : (msg x).fd = 0
      · obtain ⟨k, hk, hb⟩ := ih (index + 1) (remainingLen - (msg x).frameLen)
        have hc : candidates msg (x :: q) = x :: candidates msg q := by
          rw [candidates, if_neg (by simp [hp]), if_pos hz]
        have ha : alwaysPicked msg (x :: q) = alwaysPicked msg q + 1 := by
          rw [alwaysPicked, if_neg (by simp [hp]), if_pos hz]
        rw [hc, ha]
        refine ⟨k + 1, isGreatest_cons (by omega) h.2 (by omega) ?_, ?_⟩
        · rwa [Nat.sub_sub, Nat.add_sub_cancel]
        · rw [pickUp_first q h hp rfl, sendable_cons _ hp, hz, hb, List.take_succ_cons]
      · obtain ⟨k, hk, hb⟩ := pickUp_same msg (index + 1)
          (remainingLen - (msg x).frameLen) q hz
        have hc : candidates msg (x :: q) =
            x :: (live msg q).filter fun y => (msg y).fd == (msg x).fd := by
          rw [candidates, if_neg (by simp [hp]), if_neg hz]
        have ha : alwaysPicked msg (x :: q) = 1 := by
          rw [alwaysPicked, if_neg (by simp [hp]), if_neg hz]
        rw [hc, ha]
        refine ⟨k + 1, isGreatest_cons (by omega) h.2 (by omega) ?_, ?_⟩
        · rwa [Nat.sub_sub]
        · rw [pickUp_first q h hp rfl, sendable_cons _ hp, hb, List.take_succ_cons]

/-- The loop as a relation between queue, batch and rest: it stops, ends with a poison pill,
picks a message of the chosen descriptor up or skips one of another. -/
theorem pickUp_induction (msg : α → MessageWithFrameLen) {P : Fd → List α → List α × List α → Prop}
    (stop : ∀ f q, P f q ([], q))
    (poison : ∀ f x q, isPoison msg x = true → P f (x :: q) ([x], q))
    (pick : ∀ f x q r, isPoison msg x = false → (f = 0 ∨ (msg x).fd = f) → P (msg x).fd q r →
      P f (x :: q) (x :: r.1, r.2))
    (skip : ∀ f x q r, isPoison msg x = false → f ≠ 0 → (msg x).fd ≠ f → P f q r →
      P f (x :: q) (r.1, x :: r.2))
    (index : ℕ) (firstFd : Fd) (remainingLen : ℤ) (q : List α) :
    P firstFd q (pickUp msg index firstFd remainingLen q) := by
  induction q generalizing index firstFd remainingLen with
  | nil => exact stop firstFd []
  | cons x q ih =>
    by_cases h : index < messagesBatchSize ∧ remainingLen > 0
    swap
    · rw [pickUp_full q h]
      exact stop firstFd (x :: q)
    cases hp : isPoison msg x with
    | true =>
      rw [pickUp_poison q h hp]
      exact poison firstFd x q hp
    | false =>
      by_cases h0 : firstFd = 0
      · rw [pickUp_first q h hp h0]
        exact pick _ _ _ _ hp (.inl h0) (ih _ _ _)
      · by_cases hfd : (msg x).fd = firstFd
        · by_cases hl : ((msg x).frameLen : ℤ) > remainingLen
          · rw [pickUp_tooLarge q h hp h0 hfd hl]
            exact stop firstFd (x :: q)
          · rw [pickUp_fits q h hp h0 hfd hl]
            refine pick _ _ _ _ hp (.inr hfd) ?_
            rw [hfd]
            exact ih _ _ _
        · rw [pickUp_other q h hp h0 hfd]
          exact skip _ _ _ _ hp h0 hfd (ih _ _ _)

theorem pickUp_sublist (msg : α → MessageWithFrameLen) (index : ℕ) (firstFd : Fd)
    (remainingLen : ℤ) (q : List α) :
    (pickUp msg index firstFd remainingLen q).1.Sublist q ∧
      (pickUp msg index firstFd remainingLen q).2.Sublist q := by
  apply pickUp_induction msg (P := fun _ q r => r.1.Sublist q ∧ r.2.Sublist q)
  · exact fun _ q => ⟨List.nil_sublist q, .refl q⟩
  · exact fun _ x q _ => ⟨(List.nil_sublist q).cons_cons x, .cons x (.refl q)⟩
  · exact fun _ x _ _ _ _ h => ⟨h.1.cons_cons x, h.2.cons x⟩
  · exact fun _ x _ _ _ _ _ h => ⟨h.1.cons x, h.2.cons_cons x⟩

theorem mem_candidates_of_sendable (msg : α → MessageWithFrameLen) (bufferSize : ℕ) (q : List α)
    {x : α} (h : x ∈ sendable msg (tsDequeueMultipleMessagesForSameFd msg q bufferSize).1) :
    x ∈ candidates msg q := by
  obtain ⟨k, -, hk⟩ := pickUp_candidates msg 0 bufferSize q
  rw [tsDequeueMultipleMessagesForSameFd, hk] at h
  exact List.mem_of_mem_take h

/-- The messages of one id leave the queue from the front. -/
theorem pickUp_filter (msg : α → MessageWithFrameLen) (index : ℕ) (firstFd : Fd)
    (remainingLen : ℤ) (q : List α) (fd : Fd) :
    (pickUp msg index firstFd remainingLen q).1.filter (fun x => (msg x).fd == fd) ++
      (pickUp msg index firstFd remainingLen q).2.filter (fun x => (msg x).fd == fd) =
        q.filter fun x => (msg x).fd == fd := by
  refine (pickUp_induction msg (P := fun f q r =>
    (r.1.filter (fun x => (msg x).fd == fd) ++ r.2.filter (fun x => (msg x).fd == fd) =
      q.filter fun x => (msg x).fd == fd) ∧
    (f ≠ 0 → ∀ x ∈ r.1, (msg x).fd = f ∨ isPoison msg x = true)) ?_ ?_ ?_ ?_ index firstFd
    remainingLen q).1
  · exact fun _ q => ⟨rfl, by simp⟩
  · intro f x q hp
    refine ⟨by rw [← List.filter_append, List.singleton_append], fun _ y hy => ?_⟩
    exact .inr (List.mem_singleton.mp hy ▸ hp)
  · intro f x q r hp hf h
    refine ⟨?_, fun h0 y hy => ?_⟩
    · rw [List.filter_cons, List.filter_cons]
      split_ifs <;> simp [h.1]
    · have hxf : (msg x).fd = f := hf.resolve_left h0
      rcases List.mem_cons.mp hy with rfl | hy
      · exact .inl hxf
      · exact hxf ▸ h.2 (hxf ▸ h0) y hy
  · intro f x q r hp h0 hfd h
    refine ⟨?_, h.2⟩
    rw [List.filter_cons, List.filter_cons]
    split_ifs with hx
    · -- nothing of the skipped id is in the batch, so the message stays the first of its id
      have hnone : r.1.filter (fun y => (msg y).fd == fd) = [] := by
        rw [List.filter_eq_nil_iff]
        intro y hy hyfd
        have hxfd : (msg x).fd = fd := by simpa using hx
        have hyx : (msg y).fd = (msg x).fd := by
          rw [hxfd]
          simpa using hyfd
        rcases h.2 h0 y hy with hy | hy
        · exact hfd (hyx.symm.trans hy)
        · rw [isPoison_iff, hyx, ← isPoison_iff, hp] at hy
          cases hy
      rw [← h.1, hnone, List.nil_append, List.nil_append]
    · exact h.1

theorem fillBuffer_sublist {batch out : List α} {registered : List Bool}
    (h : fillBuffer msg batch registered = some out) :
    out.Sublist batch ∧ ∀ x ∈ out, isPoison msg x = false := by
  induction batch generalizing registered out with
  | nil =>
    cases h
    exact ⟨.slnil, by simp⟩
  | cons x batch ih =>
    unfold fillBuffer at h
    cases hl : look (registered.headD false) (msg x) with
    | poisoned =>
      rw [hl] at h
      cases h
    | disconnected =>
      rw [hl] at h
      obtain ⟨hs, hp⟩ := ih h
      exact ⟨hs.cons x, hp⟩
    | copied =>
      rw [hl] at h
      obtain ⟨rest, hrest, rfl⟩ := Option.map_eq_some_iff.mp h
      obtain ⟨hs, hp⟩ := ih hrest
      refine ⟨hs.cons_cons x, ?_⟩
      intro y hy
      rcases List.mem_cons.mp hy with rfl | hy
      · rw [isPoison_eq_false]
        intro hpoison
        simp [look, hpoison] at hl
      · exact hp y hy

end StompBroker.WriterThread
