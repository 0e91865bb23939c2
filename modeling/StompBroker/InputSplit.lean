import StompBroker.AcceptEpoll
import StompBroker.ParserMemory

/-! The split of the read buffer on the memory of the buffer. Other threads use the input queue
between two messages; what they do to it is a parameter. -/
namespace StompBroker.InputSplit
open CString (CStr lit)
open SessionStorage Message AcceptEpoll TracedMemory
open ParserMemory (Inside)

/-- One call of `ts_enqueue_limited`: the queue under the lock, the message, the queue afterwards. -/
structure Attempt where
  before : List MessageWithTimestamp
  message : MessageWithTimestamp
  after : List MessageWithTimestamp
  deriving DecidableEq, Repr

def skipText : ℕ → ℕ → Traced UInt8 ℕ
  | 0, _ => fault .null
  | fuel + 1, i => do
      let b ← load (some i)
      if b ≠ 0 then skipText fuel (i + 1) else pure i

section Code
variable (limit : ℕ) (now : ℤ) (connSock : Fd) (others : ℕ → List MessageWithTimestamp → List MessageWithTimestamp)
  (receivedLength : ℕ)

/-- The loop from an index on; `k` counts the messages so far. The content is cloned before the message is offered. -/
def putLoop : ℕ → ℕ → ℕ → List MessageWithTimestamp → Traced UInt8 (List Attempt × List MessageWithTimestamp)
  | 0, _, _, _ => fault .null
  | fuel + 1, i, k, inputQueue =>
      if i < receivedLength then do
        let content ← cells 0 (some i)
        let incomingMessage := messageCreateWithTimestamp connSock content now
        let before := others k inputQueue
        let after := (tsEnqueueLimited before incomingMessage limit).1
        let i ← skipText fuel i
        let rest ← putLoop fuel (i + 1) (k + 1) after
        pure (⟨before, incomingMessage, after⟩ :: rest.1, rest.2)
      else pure ([], inputQueue)

/-- Each pass moves the index, so the length bounds both loops. -/
def putStompMessagesOnQueue (inputQueue : List MessageWithTimestamp) :
    Traced UInt8 (List Attempt × List MessageWithTimestamp) :=
  if receivedLength = 0 then pure ([], inputQueue)
  else do
    store (some receivedLength) 0
    putLoop limit now connSock others receivedLength (receivedLength + 2) 0 0 inputQueue

def attempts : ℕ → List MessageWithTimestamp → List MessageWithTimestamp → List Attempt × List MessageWithTimestamp
  | _, q, [] => ([], q)
  | k, q, m :: ms =>
      let before := others k q
      let after := (tsEnqueueLimited before m limit).1
      let rest := attempts (k + 1) after ms
      (⟨before, m, after⟩ :: rest.1, rest.2)

end Code

section Memory
variable {limit : ℕ} {now : ℤ} {connSock : Fd} {others : ℕ → List MessageWithTimestamp → List MessageWithTimestamp}
  {n i : ℕ} {m text past : List UInt8}

theorem skipText_runs (h : TextAt 0 m i text past) (hn : i + text.length ≤ n) {fuel : ℕ} (hf : text.length < fuel) :
    Runs (Inside n) (skipText fuel i) m (i + text.length) m := by
  induction text generalizing i fuel with
  | nil =>
    obtain ⟨fuel, rfl⟩ : ∃ k, fuel = k + 1 := ⟨fuel - 1, by omega⟩
    have hb : m[i]? = some 0 := by
      have hget := congrArg (·[0]?) h.1
      simpa using hget
    refine (load_runs hb (by rw [Inside]; simp at hn; omega)).bind ?_
    simpa using Runs.pure i m
  | cons b text ih =>
    obtain ⟨fuel, rfl⟩ : ∃ k, fuel = k + 1 := ⟨fuel - 1, by omega⟩
    have hb : m[i]? = some b := by
      have hget := congrArg (·[0]?) h.1
      simpa using hget
    have hne : b ≠ 0 := fun he => h.2 (he ▸ List.mem_cons_self)
    rw [List.length_cons] at hn hf
    refine (load_runs hb (by rw [Inside]; omega)).bind ?_
    have hrest := ih (h.drop (by simp : 1 ≤ (b :: text).length)) (by omega) (by omega : text.length < fuel)
    rw [if_pos hne, List.length_cons, Nat.add_comm text.length, ← Nat.add_assoc]
    exact hrest

theorem putLoop_done {fuel k : ℕ} (hf : 0 < fuel) (hi : n ≤ i) (q : List MessageWithTimestamp) :
    putLoop limit now connSock others n fuel i k q = pure ([], q) := by
  obtain ⟨fuel, rfl⟩ : ∃ k, fuel = k + 1 := ⟨fuel - 1, by omega⟩
  rw [putLoop, if_neg (by omega)]

theorem putLoop_pass {fuel k : ℕ} {q : List MessageWithTimestamp} {rest : List Attempt × List MessageWithTimestamp}
    (h : TextAt 0 m i text past) (hi : i < n) (hn : i + text.length ≤ n) (hf : text.length < fuel)
    (hrest : Runs (Inside n) (putLoop limit now connSock others n fuel (i + text.length + 1) (k + 1)
      (tsEnqueueLimited (others k q) ⟨connSock, text, now⟩ limit).1) m rest m) :
    Runs (Inside n) (putLoop limit now connSock others n (fuel + 1) i k q) m
      (⟨others k q, ⟨connSock, text, now⟩, (tsEnqueueLimited (others k q) ⟨connSock, text, now⟩ limit).1⟩ :: rest.1,
        rest.2) m := by
  rw [putLoop, if_pos hi]
  refine (cells_runs h (by rw [Inside]; omega)).bind ?_
  refine (skipText_runs h hn hf).bind ?_
  exact hrest.bind (Runs.pure _ m)

theorem putLoop_runs (front rest : List UInt8) {fuel k : ℕ} (hf : rest.length + 2 ≤ fuel) (q : List MessageWithTimestamp)
    (hm : m = front ++ (rest ++ 0 :: past)) (hn : n = front.length + rest.length) :
    Runs (Inside n) (putLoop limit now connSock others n fuel front.length k q) m
      (attempts limit others k q ((splitTexts rest).map (⟨connSock, ·, now⟩))) m := by
  induction fuel generalizing front rest k q with
  | zero => omega
  | succ fuel ih =>
    by_cases hmem : (0 : UInt8) ∈ rest
    · obtain ⟨text, back, rfl, hfront⟩ := List.eq_append_cons_of_mem hmem
      have htext : TextAt 0 m front.length text (back ++ 0 :: past) := by
        refine ⟨?_, hfront⟩
        rw [hm, List.drop_left, List.append_assoc, List.cons_append]
      simp only [List.length_append, List.length_cons] at hf hn
      have hback := @ih (front ++ text ++ [0]) back (k + 1) (by omega)
        (tsEnqueueLimited (others k q) ⟨connSock, text, now⟩ limit).1 (by simp [hm]) (by simp; omega)
      rw [splitTexts_append back hfront, List.map_cons, attempts]
      refine putLoop_pass htext (by omega) (by omega) (by omega) ?_
      simpa [Nat.add_assoc] using hback
    · cases rest with
      | nil =>
        rw [putLoop_done (by omega) (by simp [hn])]
        exact Runs.pure _ m
      | cons b rest =>
        have htext : TextAt 0 m front.length (b :: rest) past := ⟨by rw [hm, List.drop_left], hmem⟩
        rw [splitTexts_singleton (List.cons_ne_nil b rest) hmem, List.map_singleton, attempts, attempts]
        rw [List.length_cons] at hf hn
        refine putLoop_pass htext (by omega) (by rw [List.length_cons]; omega) (by rw [List.length_cons]; omega) ?_
        rw [putLoop_done (by omega) (by rw [List.length_cons]; omega)]
        exact Runs.pure _ m

theorem putStompMessagesOnQueue_runs (hroom : n < m.length) (q : List MessageWithTimestamp) :
    ∃ m', Runs (Inside n) (putStompMessagesOnQueue limit now connSock others n q) m
      (attempts limit others 0 q ((splitTexts (m.take n)).map (⟨connSock, ·, now⟩))) m' := by
  rw [putStompMessagesOnQueue]
  split_ifs with hzero
  · refine ⟨m, ?_⟩
    rw [hzero, List.take_zero]
    exact Runs.pure _ m
  · refine ⟨m.set n 0, (store_runs 0 hroom (by rw [Inside])).bind ?_⟩
    have hset : m.set n 0 = [] ++ (m.take n ++ 0 :: m.drop (n + 1)) := by
      rw [List.nil_append, List.set_eq_take_append_cons_drop, if_pos hroom]
    have hlen : (m.take n).length = n := by
      rw [List.length_take]
      omega
    exact putLoop_runs [] (m.take n) (by omega) q hset (by simp [hlen])

end Memory

section Queue
variable {limit : ℕ} {now : ℤ} {connSock : Fd} {others : ℕ → List MessageWithTimestamp → List MessageWithTimestamp}
  {k : ℕ}

theorem attempts_messages (q ms : List MessageWithTimestamp) : (attempts limit others k q ms).1.map Attempt.message = ms := by
  induction ms generalizing k q with
  | nil => rfl
  | cons m ms ih => rw [attempts, List.map_cons, ih]

/-- Whatever the other threads did, a call appends below the limit and nowhere else. -/
theorem attempts_limited (q ms : List MessageWithTimestamp) : ∀ a ∈ (attempts limit others k q ms).1,
    a.after = if a.before.length < limit then a.before ++ [a.message] else a.before := by
  induction ms generalizing k q with
  | nil => simp [attempts]
  | cons m ms ih =>
    intro a ha
    rcases List.mem_cons.1 ha with rfl | ha
    · simp only [tsEnqueueLimited]
      split_ifs <;> rfl
    · exact ih _ a ha

theorem attempts_alone (hothers : ∀ k q, others k q = q) (q : List MessageWithTimestamp) (texts : List CStr) :
    (attempts limit others k q (texts.map (⟨connSock, ·, now⟩))).2 = (enqueueTexts limit now connSock q texts).1 := by
  induction texts generalizing k q with
  | nil => rfl
  | cons text texts ih =>
    simp only [List.map_cons, attempts, enqueueTexts, hothers, messageCreateWithTimestamp]
    exact ih _

theorem putStompMessagesOnQueue_alone {n : ℕ} {m : List UInt8} (hroom : n < m.length) (hothers : ∀ k q, others k q = q)
    (q : List MessageWithTimestamp) :
    ∃ calls m', Runs (Inside n) (putStompMessagesOnQueue limit now connSock others n q) m
      (calls, (AcceptEpoll.putStompMessagesOnQueue limit now connSock m q n).1) m' := by
  obtain ⟨m', hrun⟩ := @putStompMessagesOnQueue_runs limit now connSock others n m hroom q
  refine ⟨(attempts limit others 0 q ((splitTexts (m.take n)).map (⟨connSock, ·, now⟩))).1, m', ?_⟩
  rw [AcceptEpoll.putStompMessagesOnQueue, ← attempts_alone hothers]
  exact hrun

theorem enqueueTexts_sufficient {q : List MessageWithTimestamp} {texts : List CStr} (h : q.length + texts.length ≤ limit) :
    (enqueueTexts limit now connSock q texts).1 = q ++ texts.map (⟨connSock, ·, now⟩) := by
  induction texts generalizing q with
  | nil => simp [enqueueTexts]
  | cons text texts ih =>
    rw [List.length_cons] at h
    have hlt : q.length < limit := by omega
    have hrest := @ih (q ++ [⟨connSock, text, now⟩]) (by rw [List.length_append, List.length_singleton]; omega)
    simp only [enqueueTexts, tsEnqueueLimited, if_pos hlt, messageCreateWithTimestamp, hrest]
    simp

end Queue

def frameBytes (frames : List CStr) : List UInt8 := frames.flatMap (· ++ [0])

theorem splitTexts_frameBytes {frames : List CStr} (hframes : ∀ f ∈ frames, f ≠ [] ∧ (0 : UInt8) ∉ f)
    (rest : List UInt8) :
    splitTexts (frameBytes frames ++ rest) = frames ++ splitTexts rest := by
  induction frames with
  | nil => rfl
  | cons f frames ih =>
    have hbytes : frameBytes (f :: frames) ++ rest = f ++ 0 :: (frameBytes frames ++ rest) := by simp [frameBytes]
    rw [hbytes, splitTexts_append _ (hframes f List.mem_cons_self).2, ih fun g hg => hframes g (List.mem_cons_of_mem f hg),
      List.cons_append]

/-- The last NUL makes no difference. -/
theorem splitTexts_frames {frames : List CStr} (hframes : ∀ f ∈ frames, f ≠ [] ∧ (0 : UInt8) ∉ f) {bytes : List UInt8}
    (h : bytes = frameBytes frames ∨ bytes ++ [0] = frameBytes frames) : splitTexts bytes = frames := by
  rcases h with rfl | h
  · rw [← List.append_nil (frameBytes frames), splitTexts_frameBytes hframes, splitTexts, List.append_nil]
  · rcases List.eq_nil_or_concat frames with rfl | ⟨front, last, rfl⟩
    · simp [frameBytes] at h
    · rw [List.concat_eq_append] at *
      have hlast := hframes last (by simp)
      obtain rfl : bytes = frameBytes front ++ last := by
        refine (List.append_left_inj [0]).1 (h.trans ?_)
        simp [frameBytes]
      rw [splitTexts_frameBytes fun f hf => hframes f (List.mem_append_left _ hf), splitTexts_singleton hlast.1 hlast.2]

/-- The call stays in front of the terminator, offers every frame once and in order, and appends
only below the limit, whatever other threads do to the queue in between. -/
theorem input_split_at_nul {buffer : List UInt8} {length : ℕ} (hroom : length < buffer.length) (limit : ℕ) (now : ℤ) (fd : Fd)
    (others : ℕ → List MessageWithTimestamp → List MessageWithTimestamp) (queue : List MessageWithTimestamp) :
    ∃ calls queue' buffer',
      Runs (Inside length) (putStompMessagesOnQueue limit now fd others length queue) buffer (calls, queue') buffer' ∧
      (∀ a ∈ calls, a.after = if a.before.length < limit then a.before ++ [a.message] else a.before) ∧
      ∀ frames, (∀ f ∈ frames, f ≠ [] ∧ (0 : UInt8) ∉ f) →
        (buffer.take length = frameBytes frames ∨ buffer.take length ++ [0] = frameBytes frames) →
        calls.map Attempt.message = frames.map (⟨fd, ·, now⟩) ∧
        ((∀ k q, others k q = q) → queue.length + frames.length ≤ limit →
          queue' = queue ++ frames.map (⟨fd, ·, now⟩)) := by
  obtain ⟨buffer', hrun⟩ := @putStompMessagesOnQueue_runs limit now fd others length buffer hroom queue
  refine ⟨_, _, buffer', hrun, attempts_limited queue _, fun frames hframes hbytes => ?_⟩
  rw [splitTexts_frames hframes hbytes]
  refine ⟨attempts_messages queue _, fun hothers hlimit => ?_⟩
  rw [attempts_alone hothers, enqueueTexts_sufficient hlimit]

/-- Two frames, the second without its NUL, in a buffer with an old byte behind them. -/
theorem input_split_at_nul_pair :
    ∃ calls queue' buffer',
      Runs (Inside 4) (putStompMessagesOnQueue 2 9 5 (fun _ q => q) 4 []) (lit "a" ++ [0] ++ lit "bc" ++ lit "x")
        (calls, queue') buffer' ∧ queue' = [⟨5, lit "a", 9⟩, ⟨5, lit "bc", 9⟩] := by
  obtain ⟨calls, queue', buffer', hrun, -, hframes⟩ := @input_split_at_nul (lit "a" ++ [0] ++ lit "bc" ++ lit "x") 4 (by decide)
    2 9 5 (fun _ q => q) []
  exact ⟨calls, queue', buffer', hrun,
    (hframes [lit "a", lit "bc"] (by decide) (.inr (by decide))).2 (fun _ _ => rfl) (by decide)⟩

end StompBroker.InputSplit
