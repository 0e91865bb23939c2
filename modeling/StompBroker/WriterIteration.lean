import StompBroker.OutputBuffer
import StompBroker.WriteLoop
import Mathlib.Data.List.TakeWhile

/-! One iteration of a writer thread: it takes a batch from the output queue, copies the messages
of registered sessions to its buffer and writes the buffer, unless it meets a poison pill first. -/
namespace StompBroker.WriterIteration
open CString SessionStorage Message Dataframe GreedyPrefix WriterThread OutputBuffer WriteLoop
variable {α : Type}

/-- What an iteration leaves in the queue, whether it ends the thread, and its calls of `write` with
the descriptor and the buffer they are for. -/
structure Iteration (α : Type) where
  queue : List α
  exits : Bool
  fd : Fd
  buffer : List UInt8
  attempts : List Attempt
  closes : ℕ

def found (storage : Storage) (m : MessageWithFrameLen) : Bool := sessionStorageGet storage (socket m) != 0

/-- The lookups for a batch. Other threads change the table in between. -/
def lookups (msg : α → MessageWithFrameLen) (tables : ℕ → Storage) (batch : List α) : List Bool :=
  batch.mapIdx fun i x => found (tables i) (msg x)

/-- How the copying loop ends: a copy runs over the end of the write buffer, a poison pill ends the
thread, or the messages stand in the buffer. -/
inductive Filled (α : Type)
  | overrun
  | ended
  | filled (copied : List α)
  deriving DecidableEq, Repr

def Filled.cons (x : α) : Filled α → Filled α
  | .filled copied => .filled (x :: copied)
  | other => other

/-- The copying loop with the bytes that are left in the write buffer. -/
def copyLoop (msg : α → MessageWithFrameLen) : ℕ → List α → List Bool → Filled α
  | _, [], _ => .filled []
  | room, x :: batch, registered =>
      match look (registered.headD false) (msg x) with
      | .poisoned => .ended
      | .disconnected => copyLoop msg room batch registered.tail
      | .copied =>
          if wireLen (msg x) ≤ room then (copyLoop msg (room - wireLen (msg x)) batch registered.tail).cons x
          else .overrun

/-- `none` when a copy runs over the end of the write buffer. -/
def writerThread (msg : α → MessageWithFrameLen) (bufferSize : ℕ) (q : List α) (tables : ℕ → Storage)
    (answers : Socket) (clock : ℕ) : Option (Iteration α) :=
  let (batch, rest) := tsDequeueMultipleMessagesForSameFd msg q bufferSize
  match copyLoop msg bufferSize batch (lookups msg tables batch) with
  | .overrun => none
  | .ended => some ⟨rest, true, targetFd msg batch, [], [], 0⟩
  | .filled copied =>
      let buffer := copied.flatMap fun x => wsOutputFilter (msg x)
      let (attempts, closes) := writeBuffer answers clock buffer
      some ⟨rest, false, targetFd msg batch, buffer, attempts, closes⟩

/-- The bytes of the first call of `write` and its descriptor. -/
def Iteration.handed (it : Iteration α) : Option (Fd × List UInt8) :=
  it.attempts.head?.map fun a => (it.fd, (it.buffer.drop a.offset).take a.requested)

/-- The wire form of a message is part of what is handed to `write` for its descriptor. -/
def HandedToWrite (handed : Option (Fd × List UInt8)) (m : MessageWithFrameLen) : Prop :=
  ∃ front back, handed = some (descriptorOf m.fd, front ++ wsOutputFilter m ++ back)

def Registered (storage : Storage) (m : MessageWithFrameLen) : Prop :=
  (descriptorOf m.fd).toNat ≤ maxNumberOfConnections ∧ sessionStorageGet storage (descriptorOf m.fd) ≠ 0

/-- Every message of the batch that is no poison pill, and whose session is registered when the writer
comes to it, is handed to `write`. -/
def AllHanded (msg : α → MessageWithFrameLen) (bufferSize : ℕ) (q : List α) (tables : ℕ → Storage)
    (answers : Socket) (clock : ℕ) : Prop :=
  ∀ (i : ℕ) (x : α), (tsDequeueMultipleMessagesForSameFd msg q bufferSize).1[i]? = some x → isPoison msg x = false →
    Registered (tables i) (msg x) →
    HandedToWrite ((writerThread msg bufferSize q tables answers clock).bind Iteration.handed) (msg x)

/-- The first `k` candidates fit the slots of a batch and, by their predicted lengths, the buffer. -/
def Taken (msg : α → MessageWithFrameLen) (bufferSize : ℕ) (q : List α) (k : ℕ) : Prop :=
  Admitted (frameLenOf msg) messagesBatchSize bufferSize (alwaysPicked msg q) (candidates msg q) k

def Due (msg : α → MessageWithFrameLen) (bufferSize : ℕ) (q : List α) (tables : ℕ → Storage) (x : α) : Prop :=
  ∃ i, (candidates msg q)[i]? = some x ∧ Taken msg bufferSize q (i + 1) ∧ Registered (tables i) (msg x)

def PillReached (msg : α → MessageWithFrameLen) (bufferSize : ℕ) (q : List α) : Prop :=
  (∃ x ∈ q, isPoison msg x = true) ∧ (candidates msg q).length < messagesBatchSize ∧
    total (frameLenOf msg) (candidates msg q) < bufferSize

/-- The messages of a list that a copying loop finds registered. -/
def copies (msg : α → MessageWithFrameLen) : List α → List Bool → List α
  | [], _ => []
  | x :: batch, registered =>
      match look (registered.headD false) (msg x) with
      | .poisoned => []
      | .disconnected => copies msg batch registered.tail
      | .copied => x :: copies msg batch registered.tail

def wireLenOf (msg : α → MessageWithFrameLen) (x : α) : ℕ := wireLen (msg x)

/-- The wire forms of the taken messages that are found registered fit the write buffer. -/
def CopiesFit (msg : α → MessageWithFrameLen) (bufferSize : ℕ) (q : List α) (tables : ℕ → Storage) : Prop :=
  ∀ k, Taken msg bufferSize q k →
    total (wireLenOf msg) (copies msg ((candidates msg q).take k) (lookups msg tables ((candidates msg q).take k))) ≤ bufferSize

/-- The candidates of descriptor zero, which do not choose the descriptor of the batch. -/
def zeroPart (msg : α → MessageWithFrameLen) (q : List α) : List α :=
  (candidates msg q).takeWhile fun x => (msg x).fd == 0

def ownPart (msg : α → MessageWithFrameLen) (q : List α) : List α :=
  (candidates msg q).dropWhile fun x => (msg x).fd == 0

/-- The socket mask leaves the descriptor of the message alone, and a message of descriptor zero does not
share its batch with one for another socket. -/
def OwnSocket (msg : α → MessageWithFrameLen) (bufferSize : ℕ) (q : List α) (x : α) : Prop :=
  (descriptorOf (msg x).fd).toNat ≤ 0x3FFF ∧
    ((msg x).fd = 0 → ∀ y ∈ (ownPart msg q).head?, Taken msg bufferSize q ((zeroPart msg q).length + 1) →
      socket (msg y) = 0)

section Batch
variable {msg : α → MessageWithFrameLen}

theorem room_cons {P : Prop} {x : α} {c : List α} {index : ℕ} {remainingLen : ℤ} :
    (P ∧ index + 1 + c.length < messagesBatchSize ∧
        (total (frameLenOf msg) c : ℤ) < remainingLen - (msg x).frameLen) ↔
      P ∧ index + (x :: c).length < messagesBatchSize ∧ (total (frameLenOf msg) (x :: c) : ℤ) < remainingLen := by
  rw [List.length_cons, total_cons, frameLenOf]
  push_cast
  constructor
  · rintro ⟨hq, hlen, htotal⟩
    exact ⟨hq, by omega, by omega⟩
  · rintro ⟨hq, hlen, htotal⟩
    exact ⟨hq, by omega, by omega⟩

/-- Behind the first message the scan reaches a poison pill exactly when everything before it fits. -/
theorem pickUp_same_pill (index : ℕ) {firstFd : Fd} (remainingLen : ℤ) (q : List α) (h0 : firstFd ≠ 0) :
    (∃ x ∈ (pickUp msg index firstFd remainingLen q).1, isPoison msg x = true) ↔
      (∃ x ∈ q, isPoison msg x = true) ∧
      index + ((live msg q).filter fun y => (msg y).fd == firstFd).length < messagesBatchSize ∧
      (total (frameLenOf msg) ((live msg q).filter fun y => (msg y).fd == firstFd) : ℤ) < remainingLen := by
  induction q generalizing index remainingLen with
  | nil => simp [pickUp]
  | cons x q ih =>
    by_cases h : index < messagesBatchSize ∧ remainingLen > 0
    swap
    · rw [pickUp_full q h]
      simp only [List.not_mem_nil, false_and, exists_false, false_iff]
      rintro ⟨-, hlen, htotal⟩
      exact h ⟨by omega, by omega⟩
    cases hp : isPoison msg x with
    | true =>
      rw [pickUp_poison q h hp, live_cons_poison q hp]
      simp [hp, h.1, h.2]
    | false =>
      have hex : (∃ y ∈ x :: q, isPoison msg y = true) ↔ ∃ y ∈ q, isPoison msg y = true := by simp [hp]
      rw [live_cons q hp, hex]
      by_cases hfd : (msg x).fd = firstFd
      swap
      · rw [pickUp_other q h hp h0 hfd, List.filter_cons_of_neg (by simp [hfd])]
        exact ih index remainingLen
      rw [List.filter_cons_of_pos (by simp [hfd])]
      by_cases hl : ((msg x).frameLen : ℤ) > remainingLen
      · rw [pickUp_tooLarge q h hp h0 hfd hl]
        simp only [List.not_mem_nil, false_and, exists_false, false_iff]
        rintro ⟨-, -, htotal⟩
        rw [total_cons, frameLenOf] at htotal
        push_cast at htotal
        omega
      · rw [pickUp_fits q h hp h0 hfd hl]
        simp only [List.mem_cons, exists_eq_or_imp, hp, Bool.false_eq_true, false_or]
        rw [ih (index + 1) (remainingLen - (msg x).frameLen)]
        exact room_cons

theorem pickUp_pill (index : ℕ) (remainingLen : ℤ) (q : List α) :
    (∃ x ∈ (pickUp msg index 0 remainingLen q).1, isPoison msg x = true) ↔
      (∃ x ∈ q, isPoison msg x = true) ∧ index + (candidates msg q).length < messagesBatchSize ∧
      (total (frameLenOf msg) (candidates msg q) : ℤ) < remainingLen := by
  induction q generalizing index remainingLen with
  | nil => simp [pickUp]
  | cons x q ih =>
    by_cases h : index < messagesBatchSize ∧ remainingLen > 0
    swap
    · rw [pickUp_full q h]
      simp only [List.not_mem_nil, false_and, exists_false, false_iff]
      rintro ⟨-, hlen, htotal⟩
      exact h ⟨by omega, by omega⟩
    cases hp : isPoison msg x with
    | true =>
      rw [pickUp_poison q h hp, candidates, if_pos hp]
      simp [hp, h.1, h.2]
    | false =>
      have hex : (∃ y ∈ x :: q, isPoison msg y = true) ↔ ∃ y ∈ q, isPoison msg y = true := by simp [hp]
      rw [pickUp_first q h hp rfl, hex, candidates, if_neg (by simp [hp])]
      simp only [List.mem_cons, exists_eq_or_imp, hp, Bool.false_eq_true, false_or]
      split_ifs with hz
      · rw [hz, ih (index + 1) (remainingLen - (msg x).frameLen)]
        exact room_cons
      · rw [pickUp_same_pill (index + 1) (remainingLen - (msg x).frameLen) q hz]
        exact room_cons

theorem candidates_shape (msg : α → MessageWithFrameLen) (q : List α) :
    (∀ y ∈ (ownPart msg q).head?, (msg y).fd ≠ 0 ∧ ∀ x ∈ ownPart msg q, (msg x).fd = (msg y).fd) ∧
      (zeroPart msg q).length + min 1 (ownPart msg q).length = alwaysPicked msg q := by
  induction q with
  | nil => simp [ownPart, zeroPart, candidates, alwaysPicked]
  | cons x q ih =>
    simp only [ownPart, zeroPart] at ih ⊢
    cases hp : isPoison msg x with
    | true => simp [candidates, alwaysPicked, hp]
    | false =>
      by_cases hz : (msg x).fd = 0
      · have hc : candidates msg (x :: q) = x :: candidates msg q := by
          rw [candidates, if_neg (by simp [hp]), if_pos hz]
        have ha : alwaysPicked msg (x :: q) = alwaysPicked msg q + 1 := by
          rw [alwaysPicked, if_neg (by simp [hp]), if_pos hz]
        rw [hc, ha, List.dropWhile_cons_of_pos (by simp [hz]), List.takeWhile_cons_of_pos (by simp [hz])]
        refine ⟨ih.1, ?_⟩
        have := ih.2
        rw [List.length_cons]
        omega
      · have hc : candidates msg (x :: q) = x :: (live msg q).filter fun y => (msg y).fd == (msg x).fd := by
          rw [candidates, if_neg (by simp [hp]), if_neg hz]
        have ha : alwaysPicked msg (x :: q) = 1 := by
          rw [alwaysPicked, if_neg (by simp [hp]), if_neg hz]
        have hb : ¬ ((msg x).fd == 0) = true := fun hb => hz (beq_iff_eq.1 hb)
        rw [hc, ha, List.dropWhile_cons_of_neg (p := fun x => (msg x).fd == 0) hb,
          List.takeWhile_cons_of_neg (p := fun x => (msg x).fd == 0) hb]
        refine ⟨fun y hy => ?_, by simp⟩
        obtain rfl : x = y := by simpa using hy
        refine ⟨hz, fun z hz' => ?_⟩
        rcases List.mem_cons.1 hz' with rfl | hz'
        · rfl
        · simpa using (List.mem_filter.1 hz').2

theorem zeroPart_append_ownPart (msg : α → MessageWithFrameLen) (q : List α) :
    zeroPart msg q ++ ownPart msg q = candidates msg q := List.takeWhile_append_dropWhile

theorem fd_of_mem_zeroPart {q : List α} {x : α} (h : x ∈ zeroPart msg q) : (msg x).fd = 0 := by
  simpa using List.mem_takeWhile_imp h

theorem pickUp_sendable (msg : α → MessageWithFrameLen) (index : ℕ) (firstFd : Fd) (remainingLen : ℤ) (q : List α) :
    ∃ pill, (pickUp msg index firstFd remainingLen q).1 =
        sendable msg (pickUp msg index firstFd remainingLen q).1 ++ pill ∧ ∀ x ∈ pill, isPoison msg x = true := by
  apply pickUp_induction msg (P := fun _ _ r => ∃ pill, r.1 = sendable msg r.1 ++ pill ∧ ∀ x ∈ pill, isPoison msg x = true)
  · exact fun _ _ => ⟨[], rfl, by simp⟩
  · exact fun _ x _ hp => ⟨[x], by simp [sendable, hp], by simpa using hp⟩
  · rintro _ x _ r hp _ ⟨pill, hr, hpill⟩
    exact ⟨pill, by rw [sendable_cons _ hp, List.cons_append, ← hr], hpill⟩
  · exact fun _ _ _ _ _ _ _ h => h

end Batch

section Buffer
variable {msg : α → MessageWithFrameLen} {batch : List α} {registered : List Bool}

theorem fillBuffer_pill (h : ∃ x ∈ batch, isPoison msg x = true) : fillBuffer msg batch registered = none := by
  induction batch generalizing registered with
  | nil => simp at h
  | cons x batch ih =>
    cases hp : isPoison msg x with
    | true => simp [fillBuffer, look, isPoison_iff.1 hp]
    | false =>
      have hrest : ∃ y ∈ batch, isPoison msg y = true := by simpa [hp] using h
      rw [fillBuffer]
      cases look (registered.headD false) (msg x) with
      | poisoned => rfl
      | disconnected => exact ih hrest
      | copied => rw [ih hrest, Option.map_none]

theorem fillBuffer_live (h : ∀ x ∈ batch, isPoison msg x = false) :
    ∃ copied, fillBuffer msg batch registered = some copied ∧
      ∀ (i : ℕ) (x : α), batch[i]? = some x → registered[i]? = some true → x ∈ copied := by
  induction batch generalizing registered with
  | nil => exact ⟨[], rfl, by simp⟩
  | cons y batch ih =>
    have hp := isPoison_eq_false.1 (h y List.mem_cons_self)
    obtain ⟨copied, hfill, hmem⟩ := @ih registered.tail fun x hx => h x (List.mem_cons_of_mem y hx)
    have hlater : ∀ (i : ℕ) (x : α), batch[i]? = some x → registered[i + 1]? = some true → x ∈ copied := by
      intro i x hx hr
      refine hmem i x hx ?_
      rwa [List.getElem?_tail]
    cases hr : registered.headD false with
    | true =>
      have hlook : look true (msg y) = .copied := by simp [look, hp]
      refine ⟨y :: copied, by rw [fillBuffer, hr, hlook, hfill, Option.map_some], fun i x hx hi => ?_⟩
      cases i with
      | zero => exact (Option.some_inj.1 hx) ▸ List.mem_cons_self
      | succ i => exact List.mem_cons_of_mem y (hlater i x hx hi)
    | false =>
      have hlook : look false (msg y) = .disconnected := by simp [look, hp]
      refine ⟨copied, by rw [fillBuffer, hr, hlook]; exact hfill, fun i x hx hi => ?_⟩
      cases i with
      | zero =>
        cases registered with
        | nil => simp at hi
        | cons b registered => simp_all
      | succ i => exact hlater i x hx hi

/-- The copying loop runs over the buffer as soon as the copies do not fit; else it ends as the loop
without an end of the buffer. -/
theorem copyLoop_eq (msg : α → MessageWithFrameLen) (room : ℕ) (batch : List α) (registered : List Bool) :
    copyLoop msg room batch registered =
      if total (wireLenOf msg) (copies msg batch registered) ≤ room then
        match fillBuffer msg batch registered with
        | none => .ended
        | some copied => .filled copied
      else .overrun := by
  induction batch generalizing room registered with
  | nil => rfl
  | cons x batch ih =>
    rw [copyLoop, copies, fillBuffer]
    cases look (registered.headD false) (msg x) with
    | poisoned => simp
    | disconnected => exact ih room registered.tail
    | copied =>
      dsimp only
      rw [total_cons, wireLenOf, ih]
      by_cases hx : wireLen (msg x) ≤ room
      swap
      · rw [if_neg hx, if_neg (by omega)]
      rw [if_pos hx]
      by_cases hrest : total (wireLenOf msg) (copies msg batch registered.tail) ≤ room - wireLen (msg x)
      · rw [if_pos hrest, if_pos (by omega)]
        cases fillBuffer msg batch registered.tail <;> rfl
      · rw [if_neg hrest, if_neg (by omega)]
        rfl

theorem copies_append (msg : α → MessageWithFrameLen) (c : List α) (answers : List Bool) (hlen : answers.length = c.length)
    (d : List α) (later : List Bool) : ∃ more, copies msg (c ++ d) (answers ++ later) = copies msg c answers ++ more := by
  induction c generalizing answers with
  | nil => exact ⟨_, rfl⟩
  | cons x c ih =>
    obtain ⟨b, answers, rfl⟩ := List.exists_cons_of_length_eq_add_one hlen
    obtain ⟨more, hmore⟩ := ih answers (by simpa using hlen)
    simp only [List.cons_append, copies, List.headD_cons, List.tail_cons, hmore]
    cases look b (msg x) with
    | poisoned => exact ⟨[], rfl⟩
    | disconnected => exact ⟨more, rfl⟩
    | copied => exact ⟨more, rfl⟩

theorem lookups_append (msg : α → MessageWithFrameLen) (tables : ℕ → Storage) (c d : List α) :
    lookups msg tables (c ++ d) = lookups msg tables c ++ lookups msg (fun i => tables (i + c.length)) d :=
  List.mapIdx_append

theorem total_copies_take_le (msg : α → MessageWithFrameLen) (tables : ℕ → Storage) (c : List α) {j k : ℕ} (h : j ≤ k) :
    total (wireLenOf msg) (copies msg (c.take j) (lookups msg tables (c.take j))) ≤
      total (wireLenOf msg) (copies msg (c.take k) (lookups msg tables (c.take k))) := by
  obtain ⟨d, hd⟩ : c.take j <+: c.take k := List.take_prefix_take_left h
  rw [← hd, lookups_append]
  obtain ⟨more, hmore⟩ := copies_append msg (c.take j) (lookups msg tables (c.take j))
    (by simp only [lookups, List.length_mapIdx]) d (lookups msg (fun i => tables (i + (c.take j).length)) d)
  rw [hmore]
  simp [total]

theorem wsOutputFilter_ne_nil (m : MessageWithFrameLen) : wsOutputFilter m ≠ [] := by
  unfold wsOutputFilter
  split_ifs with he hh
  · intro hnil
    have := length_encodeWebsocketFrame m.content
    rw [hnil, List.length_nil] at this
    omega
  · intro hnil
    rw [hnil] at hh
    exact absurd hh (by decide)
  · simp

theorem handed_whole (answers : Socket) (clock : ℕ) (fd : Fd) (rest : List α) {buffer : List UInt8} (hb : buffer ≠ []) :
    Iteration.handed ⟨rest, false, fd, buffer, (writeBuffer answers clock buffer).1,
      (writeBuffer answers clock buffer).2⟩ = some (fd, buffer) := by
  have hw := writeBuffer_writes answers clock hb
  obtain ⟨a, more, ha⟩ := List.exists_cons_of_ne_nil hw.attempts_ne_nil
  obtain ⟨ho, hr, -⟩ := ha ▸ hw.inStep
  simp [Iteration.handed, ha, ho, hr]

end Buffer

section Iterations
variable {msg : α → MessageWithFrameLen} {bufferSize : ℕ} {q : List α} {tables : ℕ → Storage} {answers : Socket}
  {clock : ℕ} {i k : ℕ} {x : α}

theorem handed_pill (h : ∃ x ∈ (tsDequeueMultipleMessagesForSameFd msg q bufferSize).1, isPoison msg x = true) :
    (writerThread msg bufferSize q tables answers clock).bind Iteration.handed = none := by
  rw [writerThread]
  dsimp only
  rw [copyLoop_eq, fillBuffer_pill h]
  split_ifs <;> rfl

theorem handed_fd {fd : Fd} {bytes : List UInt8}
    (h : (writerThread msg bufferSize q tables answers clock).bind Iteration.handed = some (fd, bytes)) :
    total (wireLenOf msg) (copies msg (tsDequeueMultipleMessagesForSameFd msg q bufferSize).1
      (lookups msg tables (tsDequeueMultipleMessagesForSameFd msg q bufferSize).1)) ≤ bufferSize ∧
      fd = targetFd msg (tsDequeueMultipleMessagesForSameFd msg q bufferSize).1 := by
  rw [writerThread] at h
  dsimp only at h
  rw [copyLoop_eq] at h
  split_ifs at h with hfit
  swap
  · cases h
  refine ⟨hfit, ?_⟩
  cases hfill : fillBuffer msg (tsDequeueMultipleMessagesForSameFd msg q bufferSize).1
    (lookups msg tables (tsDequeueMultipleMessagesForSameFd msg q bufferSize).1) with
  | none =>
    rw [hfill] at h
    cases h
  | some copied =>
    rw [hfill] at h
    obtain ⟨a, -, ha⟩ := Option.map_eq_some_iff.1 h
    exact (Prod.mk.inj ha).1.symm

theorem handed_live (h : ∀ x ∈ (tsDequeueMultipleMessagesForSameFd msg q bufferSize).1, isPoison msg x = false)
    (hfit : total (wireLenOf msg) (copies msg (tsDequeueMultipleMessagesForSameFd msg q bufferSize).1
      (lookups msg tables (tsDequeueMultipleMessagesForSameFd msg q bufferSize).1)) ≤ bufferSize)
    (hx : (tsDequeueMultipleMessagesForSameFd msg q bufferSize).1[i]? = some x)
    (hr : (lookups msg tables (tsDequeueMultipleMessagesForSameFd msg q bufferSize).1)[i]? = some true) :
    ∃ front back, (writerThread msg bufferSize q tables answers clock).bind Iteration.handed =
      some (targetFd msg (tsDequeueMultipleMessagesForSameFd msg q bufferSize).1,
        front ++ wsOutputFilter (msg x) ++ back) := by
  obtain ⟨copied, hfill, hmem⟩ := fillBuffer_live h
  obtain ⟨before, after, rfl⟩ := List.append_of_mem (hmem i x hx hr)
  refine ⟨before.flatMap fun x => wsOutputFilter (msg x), after.flatMap fun x => wsOutputFilter (msg x), ?_⟩
  have hne : ((before ++ x :: after).flatMap fun x => wsOutputFilter (msg x)) ≠ [] := by
    simp [wsOutputFilter_ne_nil]
  have hhanded := handed_whole answers clock (targetFd msg (tsDequeueMultipleMessagesForSameFd msg q bufferSize).1)
    (tsDequeueMultipleMessagesForSameFd msg q bufferSize).2 hne
  rw [writerThread]
  dsimp only
  rw [copyLoop_eq, if_pos hfit, hfill]
  dsimp only
  rw [Option.bind_some, hhanded]
  simp

theorem batch_eq (msg : α → MessageWithFrameLen) (bufferSize : ℕ) (q : List α) :
    ∃ k pill, IsGreatest {k | Admitted (frameLenOf msg) messagesBatchSize bufferSize (alwaysPicked msg q)
        (candidates msg q) k} k ∧
      (tsDequeueMultipleMessagesForSameFd msg q bufferSize).1 = (candidates msg q).take k ++ pill ∧
      ∀ x ∈ pill, isPoison msg x = true := by
  obtain ⟨k, hk, hs⟩ := pickUp_candidates msg 0 bufferSize q
  obtain ⟨pill, hb, hpill⟩ := pickUp_sendable msg 0 0 bufferSize q
  rw [hs] at hb
  exact ⟨k, pill, hk, hb, hpill⟩

theorem not_isPoison_of_mem_candidates {x : α} (h : x ∈ candidates msg q) : isPoison msg x = false := by
  induction q with
  | nil => simp [candidates] at h
  | cons y q ih =>
    unfold candidates at h
    split_ifs at h with hp hz
    · simp at h
    · rcases List.mem_cons.1 h with rfl | h
      · simpa using hp
      · exact ih h
    · rcases List.mem_cons.1 h with rfl | h
      · simpa using hp
      · have hl : x ∈ live msg q := (List.mem_filter.1 h).1
        simpa using List.mem_takeWhile_imp hl

theorem pill_iff (msg : α → MessageWithFrameLen) (bufferSize : ℕ) (q : List α) :
    (∃ x ∈ (tsDequeueMultipleMessagesForSameFd msg q bufferSize).1, isPoison msg x = true) ↔
      (∃ x ∈ q, isPoison msg x = true) ∧ (candidates msg q).length < messagesBatchSize ∧
      total (frameLenOf msg) (candidates msg q) < bufferSize := by
  rw [tsDequeueMultipleMessagesForSameFd, pickUp_pill, Nat.zero_add, Nat.cast_lt]

theorem targetFd_take (msg : α → MessageWithFrameLen) (q : List α) {k : ℕ} (hk : k ≤ (candidates msg q).length) :
    (0 < k → k ≤ (zeroPart msg q).length → targetFd msg ((candidates msg q).take k) = socket ⟨0, [], 0⟩) ∧
    ((zeroPart msg q).length < k → ∀ y ∈ ownPart msg q, targetFd msg ((candidates msg q).take k) = socket (msg y)) := by
  rw [← zeroPart_append_ownPart] at hk ⊢
  rw [List.length_append] at hk
  constructor
  · intro hpos hle
    rw [List.take_append_of_le_length hle]
    have hne : (zeroPart msg q).take k ≠ [] := List.ne_nil_of_length_pos (by rw [List.length_take]; omega)
    rw [targetFd, List.getLast?_eq_some_getLast hne, Option.map_some, Option.getD_some, socket, socket,
      fd_of_mem_zeroPart (List.mem_of_mem_take (List.getLast_mem hne))]
  · intro hlt y hy
    have hne : (ownPart msg q).take (k - (zeroPart msg q).length) ≠ [] :=
      List.ne_nil_of_length_pos (by rw [List.length_take]; omega)
    obtain ⟨z, tail, hown⟩ := List.exists_cons_of_ne_nil (List.ne_nil_of_mem hy)
    have hsame := ((candidates_shape msg q).1 z (by rw [hown]; rfl)).2
    rw [List.take_append, List.take_of_length_le hlt.le, targetFd, List.getLast?_append_of_ne_nil _ hne,
      List.getLast?_eq_some_getLast hne, Option.map_some, Option.getD_some, socket, socket,
      hsame _ (List.mem_of_mem_take (List.getLast_mem hne)), hsame y hy]

theorem batch_live (hlive : ¬ ∃ x ∈ (tsDequeueMultipleMessagesForSameFd msg q bufferSize).1, isPoison msg x = true) :
    ∃ k, IsGreatest {k | Admitted (frameLenOf msg) messagesBatchSize bufferSize (alwaysPicked msg q)
        (candidates msg q) k} k ∧
      (tsDequeueMultipleMessagesForSameFd msg q bufferSize).1 = (candidates msg q).take k := by
  obtain ⟨k, pill, hk, hb, hpill⟩ := batch_eq msg bufferSize q
  obtain rfl : pill = [] := by
    refine List.eq_nil_iff_forall_not_mem.2 fun x hx => hlive ⟨x, ?_, hpill x hx⟩
    rw [hb]
    exact List.mem_append_right _ hx
  rw [List.append_nil] at hb
  exact ⟨k, hk, hb⟩

theorem getElem?_zeroPart {i : ℕ} (hi : i < (zeroPart msg q).length) :
    (candidates msg q)[i]? = (zeroPart msg q)[i]? := by
  rw [← zeroPart_append_ownPart, List.getElem?_append_left hi]

/-- The messages of a batch that are no pills are the candidates taken. -/
theorem batch_getElem?_iff : (tsDequeueMultipleMessagesForSameFd msg q bufferSize).1[i]? = some x ∧ isPoison msg x = false ↔
    (candidates msg q)[i]? = some x ∧ Taken msg bufferSize q (i + 1) := by
  obtain ⟨k, pill, hk, hb, hpill⟩ := batch_eq msg bufferSize q
  have hlen : ((candidates msg q).take k).length = k := List.length_take_of_le hk.1.le_length
  rw [hb]
  constructor
  · rintro ⟨hx, hp⟩
    have hik : i < k := by
      by_contra hi
      rw [List.getElem?_append_right (by omega)] at hx
      rw [hpill x (List.mem_of_getElem? hx)] at hp
      cases hp
    rw [List.getElem?_append_left (by omega), List.getElem?_take_of_lt hik] at hx
    exact ⟨hx, hk.1.mono hik⟩
  · rintro ⟨hx, htaken⟩
    have hik : i < k := hk.2 htaken
    rw [List.getElem?_append_left (by omega), List.getElem?_take_of_lt hik]
    exact ⟨hx, not_isPoison_of_mem_candidates (List.mem_of_getElem? hx)⟩

theorem targetFd_eq_iff_own (hk : IsGreatest {k | Taken msg bufferSize q k} k) (hx : (candidates msg q)[i]? = some x)
    (hik : i < k) (hi : (zeroPart msg q).length ≤ i) :
    targetFd msg ((candidates msg q).take k) = descriptorOf (msg x).fd ↔ OwnSocket msg bufferSize q x := by
  have hxown : x ∈ ownPart msg q := by
    rw [← zeroPart_append_ownPart, List.getElem?_append_right hi] at hx
    exact List.mem_of_getElem? hx
  -- the batch is for the id of the message, which is not zero
  have hfd : (msg x).fd ≠ 0 := by
    obtain ⟨y, tail, hown⟩ := List.exists_cons_of_ne_nil (List.ne_nil_of_mem hxown)
    obtain ⟨hy, hsame⟩ := (candidates_shape msg q).1 y (by rw [hown]; rfl)
    rwa [hsame x hxown]
  rw [OwnSocket, ← sessionWithoutFlags_eq_descriptorOf_iff, (targetFd_take msg q hk.1.le_length).2 (by omega) x hxown,
    socket]
  exact ⟨fun h => ⟨h, fun h0 => absurd h0 hfd⟩, fun h => h.1⟩

theorem targetFd_eq_iff_zero (hk : IsGreatest {k | Taken msg bufferSize q k} k) (hx : (candidates msg q)[i]? = some x)
    (hik : i < k) (hi : i < (zeroPart msg q).length) :
    targetFd msg ((candidates msg q).take k) = descriptorOf (msg x).fd ↔ OwnSocket msg bufferSize q x := by
  have hkl : k ≤ (candidates msg q).length := hk.1.le_length
  rw [OwnSocket, ← sessionWithoutFlags_eq_descriptorOf_iff]
  have hx0 : (msg x).fd = 0 := by
    rw [getElem?_zeroPart hi] at hx
    exact fd_of_mem_zeroPart (List.mem_of_getElem? hx)
  have hzero : socket ⟨0, [], 0⟩ = 0 := by decide
  have hdescriptor : descriptorOf (0 : Fd) = 0 := by decide
  have hmask : sessionWithoutFlags (0 : Fd) = 0 := by decide
  rw [hx0, hdescriptor, hmask]
  -- alone in its batch, or before the messages of the next descriptor
  by_cases hle : k ≤ (zeroPart msg q).length
  · rw [(targetFd_take msg q hkl).1 (by omega) hle, hzero]
    refine ⟨fun _ => ⟨rfl, fun _ y _ htaken => ?_⟩, fun _ => rfl⟩
    have : (zeroPart msg q).length + 1 ≤ k := hk.2 htaken
    omega
  · have hlen : 0 < (ownPart msg q).length := by
      rw [← zeroPart_append_ownPart, List.length_append] at hkl
      omega
    obtain ⟨y, tail, hown⟩ := List.exists_cons_of_ne_nil (List.ne_nil_of_length_pos hlen)
    rw [(targetFd_take msg q hkl).2 (by omega) y (by rw [hown]; exact List.mem_cons_self)]
    constructor
    · intro h
      refine ⟨rfl, fun _ z hz _ => ?_⟩
      obtain rfl : y = z := by simpa [hown] using hz
      exact h
    · rintro ⟨-, h⟩
      exact h rfl y (by simp [hown]) (hk.1.mono (by omega))

/-- The buffer goes to the socket of a message taken exactly when the message does not share the batch
with one for another socket. -/
theorem targetFd_eq_iff (hk : IsGreatest {k | Taken msg bufferSize q k} k) (hx : (candidates msg q)[i]? = some x)
    (hik : i < k) : targetFd msg ((candidates msg q).take k) = descriptorOf (msg x).fd ↔ OwnSocket msg bufferSize q x :=
  (lt_or_ge i (zeroPart msg q).length).elim (targetFd_eq_iff_zero hk hx hik) (targetFd_eq_iff_own hk hx hik)

/-- A message whose descriptor the mask leaves alone is found when it is registered. -/
theorem found_of_registered {storage : Storage} {m : MessageWithFrameLen} (hlow : (descriptorOf m.fd).toNat ≤ 0x3FFF)
    (h : Registered storage m) : found storage m = true := by
  rw [found, socket, sessionWithoutFlags_eq_descriptorOf_iff.2 hlow]
  simpa using h.2

/-- What it takes for a message to be handed over that is taken while its session is registered. -/
theorem handed_iff (hdue : Due msg bufferSize q tables x) :
    HandedToWrite ((writerThread msg bufferSize q tables answers clock).bind Iteration.handed) (msg x) ↔
      ¬ PillReached msg bufferSize q ∧ CopiesFit msg bufferSize q tables ∧ OwnSocket msg bufferSize q x := by
  obtain ⟨i, hx, htaken, hregistered⟩ := hdue
  by_cases hpill : ∃ x ∈ (tsDequeueMultipleMessagesForSameFd msg q bufferSize).1, isPoison msg x = true
  · refine iff_of_false ?_ fun h => h.1 ((pill_iff msg bufferSize q).1 hpill)
    rintro ⟨front, back, h⟩
    rw [handed_pill hpill] at h
    cases h
  obtain ⟨k, hk, hb⟩ := batch_live hpill
  have hik : i < k := hk.2 htaken
  have htarget := targetFd_eq_iff hk hx hik
  have hfits : CopiesFit msg bufferSize q tables ↔
      total (wireLenOf msg) (copies msg ((candidates msg q).take k) (lookups msg tables ((candidates msg q).take k))) ≤
        bufferSize :=
    ⟨fun h => h k hk.1, fun h j hj => (total_copies_take_le msg tables _ (hk.2 hj)).trans h⟩
  constructor
  · rintro ⟨front, back, h⟩
    obtain ⟨hfit, hfd⟩ := handed_fd h
    rw [hb] at hfit hfd
    exact ⟨fun hreached => hpill ((pill_iff msg bufferSize q).2 hreached), hfits.2 hfit, htarget.1 hfd.symm⟩
  · rintro ⟨-, hfit, hown⟩
    have hnone : ∀ x ∈ (tsDequeueMultipleMessagesForSameFd msg q bufferSize).1, isPoison msg x = false := by
      intro x hx
      by_contra hp
      exact hpill ⟨x, hx, by simpa using hp⟩
    have hbatch := (batch_getElem?_iff.2 ⟨hx, htaken⟩).1
    have hfound : (lookups msg tables (tsDequeueMultipleMessagesForSameFd msg q bufferSize).1)[i]? = some true := by
      rw [lookups, List.getElem?_mapIdx, hbatch, Option.map_some, found_of_registered hown.1 hregistered]
    obtain ⟨front, back, h⟩ := @handed_live α msg bufferSize q tables answers clock i x hnone
      (by rw [hb]; exact hfits.1 hfit) hbatch hfound
    refine ⟨front, back, ?_⟩
    rw [h, hb, htarget.2 hown]

/-- Dequeued messages are written exactly when no poison pill is reached behind one that is due, the
copies fit the write buffer, and each message that is due goes to its own socket. -/
theorem dequeued_messages_written_iff (msg : α → MessageWithFrameLen) (bufferSize : ℕ) (q : List α)
    (tables : ℕ → Storage) (answers : Socket) (clock : ℕ) :
    AllHanded msg bufferSize q tables answers clock ↔ ∀ x, Due msg bufferSize q tables x →
      ¬ PillReached msg bufferSize q ∧ CopiesFit msg bufferSize q tables ∧ OwnSocket msg bufferSize q x := by
  constructor
  · intro hall x hdue
    obtain ⟨i, hx, htaken, hregistered⟩ := id hdue
    obtain ⟨hbatch, hp⟩ := batch_getElem?_iff.2 ⟨hx, htaken⟩
    exact (handed_iff hdue).1 (hall i x hbatch hp hregistered)
  · intro h i x hbatch hp hregistered
    obtain ⟨hx, htaken⟩ := batch_getElem?_iff.1 ⟨hbatch, hp⟩
    have hdue : Due msg bufferSize q tables x := ⟨i, hx, htaken, hregistered⟩
    exact (handed_iff hdue).2 (h x hdue)

/-- A message for a registered session with the pill of the shutdown behind it. -/
def shutdownQueue : List MessageWithFrameLen := [messageCreateWithFrameLen 5 (lit "MESSAGE\n\nx"), ⟨poisonFd, lit "KILL", 4⟩]

def oneClient (fd : Fd) : Storage := (sessionStorageAddNew sessionStorageInit fd).2

def eagerSocket : Socket := fun _ requested => if h : 0 < requested then some ⟨requested - 1, by omega⟩ else none

/-- Both are taken in one batch, and the thread ends before it writes. -/
theorem shutdown_loses_message : ¬ AllHanded id 10000 shutdownQueue (fun _ => oneClient 5) eagerSocket 0 := by
  intro hall
  have hregistered : Registered (oneClient 5) (messageCreateWithFrameLen 5 (lit "MESSAGE\n\nx")) := by
    unfold Registered
    decide
  obtain ⟨front, back, hgood⟩ := hall 0 (messageCreateWithFrameLen 5 (lit "MESSAGE\n\nx")) (by decide) (by decide) hregistered
  rw [handed_pill (by decide)] at hgood
  cases hgood

end Iterations

end StompBroker.WriterIteration
