import StompBroker.CString

/-! The write loop of a writer thread: a full buffer is written in as many pieces as the socket
accepts, each piece is tried up to 200 times, and a piece that is never accepted ends the
connection. -/
namespace StompBroker.WriteLoop

/-- What `write` returns at each attempt for the requested number of bytes: a failure, or a count
between one and that number. The count is one more than the stored value. -/
abbrev Socket := ℕ → (requested : ℕ) → Option (Fin requested)

def write (socket : Socket) (clock requested : ℕ) : ℤ :=
  match socket clock requested with
  | none => -1
  | some k => (k : ℕ) + 1

/-- One call of `write`: where it starts in the buffer, how much it asks for, what it returns. -/
structure Attempt where
  offset : ℕ
  requested : ℕ
  res : ℤ
  deriving DecidableEq, Repr

def maxRetryCount : ℕ := 200

/-- The inner loop from a given retry count: the attempts, the last result and the count left. -/
def attemptLoop (socket : Socket) (offset bufferPtr : ℕ) : ℕ → ℕ → List Attempt × ℤ × ℕ
  | _, 0 => ([], -1, 0)
  | clock, retryCount + 1 =>
      let res := write socket clock bufferPtr
      if res < 0 then
        let (attempts, last) := attemptLoop socket offset bufferPtr (clock + 1) retryCount
        (⟨offset, bufferPtr, res⟩ :: attempts, last)
      else ([⟨offset, bufferPtr, res⟩], res, retryCount + 1)

/-- The outer loop: the attempts and the number of calls of `w_close_connection`. -/
def writeLoop (socket : Socket) : ℕ → ℕ → ℕ → ℕ → List Attempt × ℕ
  | 0, _, _, _ => ([], 0)
  | fuel + 1, clock, offset, bufferPtr =>
      let (attempts, res, retryCount) := attemptLoop socket offset bufferPtr clock maxRetryCount
      if retryCount ≤ 0 then (attempts, 1)
      else
        let offset := offset + res.toNat
        let bufferPtr := bufferPtr - res.toNat
        if bufferPtr > 0 then
          let (more, closes) := writeLoop socket fuel (clock + attempts.length) offset bufferPtr
          (attempts ++ more, closes)
        else (attempts, 0)

/-- Each round of the outer loop writes at least one byte, so the buffer bounds it. -/
def writeBuffer (socket : Socket) (clock : ℕ) (buffer : List UInt8) : List Attempt × ℕ :=
  if buffer.length > 0 then writeLoop socket buffer.length clock 0 buffer.length else ([], 0)

def accepted (buffer : List UInt8) (attempts : List Attempt) : List UInt8 :=
  attempts.flatMap fun a => (buffer.drop a.offset).take a.res.toNat

def failure (offset requested : ℕ) : Attempt := ⟨offset, requested, -1⟩

def GaveUp (attempts : List Attempt) : Prop :=
  ∃ offset requested, List.replicate maxRetryCount (failure offset requested) <:+: attempts

/-- Each attempt starts where the bytes accepted so far end, and asks for all that is left. -/
def InStep (len : ℕ) : ℕ → List Attempt → Prop
  | _, [] => True
  | offset, a :: more => a.offset = offset ∧ a.requested = len - offset ∧ InStep len (offset + a.res.toNat) more

/-- All that the two loops can do from an offset on: give up, finish, or go on behind the bytes
that were accepted. -/
inductive Writes (len : ℕ) : ℕ → List Attempt → ℕ → Prop
  | giveUp {offset : ℕ} (lt : offset < len) :
      Writes len offset (List.replicate maxRetryCount (failure offset (len - offset))) 1
  | finish {offset k count : ℕ} (tries : k < maxRetryCount) (pos : 0 < count) (end_eq : offset + count = len) :
      Writes len offset (List.replicate k (failure offset (len - offset)) ++ [⟨offset, len - offset, count⟩]) 0
  | resume {offset k count closes : ℕ} {more : List Attempt} (tries : k < maxRetryCount) (pos : 0 < count)
      (lt : offset + count < len) (next : Writes len (offset + count) more closes) :
      Writes len offset (List.replicate k (failure offset (len - offset)) ++ ⟨offset, len - offset, count⟩ :: more) closes

/-- The inner loop gives up with its count at zero, or has some of it left and bytes accepted. -/
theorem attemptLoop_cases (socket : Socket) (offset bufferPtr clock retryCount : ℕ) :
    attemptLoop socket offset bufferPtr clock retryCount =
        (List.replicate retryCount (failure offset bufferPtr), -1, 0) ∨
    ∃ k count : ℕ, k < retryCount ∧ 0 < count ∧ count ≤ bufferPtr ∧
      attemptLoop socket offset bufferPtr clock retryCount =
        (List.replicate k (failure offset bufferPtr) ++ [⟨offset, bufferPtr, count⟩], (count : ℤ), retryCount - k) := by
  induction retryCount generalizing clock with
  | zero => exact .inl rfl
  | succ retryCount ih =>
    cases hs : socket clock bufferPtr with
    | some k =>
      have hres : write socket clock bufferPtr = ((k : ℕ) + 1 : ℕ) := by simp [write, hs]
      refine .inr ⟨0, k + 1, by omega, by omega, k.isLt, ?_⟩
      simp [attemptLoop, hres]
      omega
    | none =>
      have hres : write socket clock bufferPtr = -1 := by simp [write, hs]
      rcases ih (clock + 1) with h | ⟨k, count, hk, hpos, hle, h⟩
      · exact .inl (by simp [attemptLoop, hres, h, failure, List.replicate_succ])
      · refine .inr ⟨k + 1, count, by omega, hpos, hle, ?_⟩
        simp [attemptLoop, hres, h, failure, List.replicate_succ]

theorem writeLoop_writes (socket : Socket) {len fuel clock offset bufferPtr : ℕ} (hlen : offset + bufferPtr = len)
    (hpos : 0 < bufferPtr) (hf : bufferPtr ≤ fuel) :
    Writes len offset (writeLoop socket fuel clock offset bufferPtr).1
      (writeLoop socket fuel clock offset bufferPtr).2 := by
  induction fuel generalizing clock offset bufferPtr with
  | zero => omega
  | succ fuel ih =>
    obtain rfl : bufferPtr = len - offset := by omega
    rcases attemptLoop_cases socket offset (len - offset) clock maxRetryCount with h | ⟨k, count, hk, hc, hle, h⟩
    · simp only [writeLoop, h]
      exact .giveUp (by omega)
    · have hleft : ¬ maxRetryCount - k ≤ 0 := by omega
      simp only [writeLoop, h, if_neg hleft, Int.toNat_natCast]
      split_ifs with hmore
      · simp only [List.append_assoc, List.singleton_append]
        refine .resume hk hc (by omega) ?_
        exact ih (by omega) hmore (by omega)
      · exact .finish hk hc (by omega)

section Accepted
variable {buffer : List UInt8} {len offset closes : ℕ} {attempts : List Attempt}

theorem accepted_append (buffer : List UInt8) (front back : List Attempt) :
    accepted buffer (front ++ back) = accepted buffer front ++ accepted buffer back := by
  simp [accepted]

theorem accepted_failures (buffer : List UInt8) (k offset requested : ℕ) :
    accepted buffer (List.replicate k (failure offset requested)) = [] := by
  simp only [accepted, List.flatMap_eq_nil_iff]
  intro a ha
  rw [List.eq_of_mem_replicate ha]
  simp [failure]

theorem accepted_piece (buffer : List UInt8) (k offset requested count : ℕ) :
    accepted buffer (List.replicate k (failure offset requested) ++ [⟨offset, requested, count⟩]) =
      (buffer.drop offset).take count := by
  rw [accepted_append, accepted_failures]
  simp [accepted]

/-- From an offset on the accepted bytes are what stands there in the buffer, all of it unless the
connection was closed. -/
theorem Writes.accepted_eq (h : Writes buffer.length offset attempts closes) :
    (closes = 0 ∧ accepted buffer attempts = buffer.drop offset) ∨
    (closes = 1 ∧ ∃ rest, rest ≠ [] ∧ accepted buffer attempts ++ rest = buffer.drop offset) := by
  induction h with
  | @giveUp offset lt =>
    refine .inr ⟨rfl, buffer.drop offset, ?_, by rw [accepted_failures, List.nil_append]⟩
    rw [Ne, List.drop_eq_nil_iff]
    omega
  | finish tries pos end_eq =>
    refine .inl ⟨rfl, ?_⟩
    rw [accepted_piece, List.take_of_length_le]
    rw [List.length_drop]
    omega
  | @resume offset k count closes more tries pos lt next ih =>
    have hsplit : (buffer.drop offset).take count ++ buffer.drop (offset + count) = buffer.drop offset := by
      rw [← List.drop_drop, List.take_append_drop]
    have hpiece : accepted buffer (List.replicate k (failure offset (buffer.length - offset)) ++
        ⟨offset, buffer.length - offset, count⟩ :: more) = (buffer.drop offset).take count ++ accepted buffer more := by
      rw [← accepted_piece buffer k offset (buffer.length - offset) count, ← accepted_append, List.append_assoc,
        List.singleton_append]
    rcases ih with ⟨hc, he⟩ | ⟨hc, rest, hne, he⟩
    · exact .inl ⟨hc, by rw [hpiece, he, hsplit]⟩
    · exact .inr ⟨hc, rest, hne, by rw [hpiece, List.append_assoc, he, hsplit]⟩

theorem Writes.le_offset (h : Writes len offset attempts closes) : ∀ a ∈ attempts, offset ≤ a.offset := by
  induction h with
  | giveUp =>
    intro a ha
    rw [List.eq_of_mem_replicate ha, failure]
  | finish =>
    intro a ha
    rcases List.mem_append.1 ha with ha | ha
    · rw [List.eq_of_mem_replicate ha, failure]
    · rw [List.mem_singleton.1 ha]
  | resume tries pos lt next ih =>
    intro a ha
    rcases List.mem_append.1 ha with ha | ha
    · rw [List.eq_of_mem_replicate ha, failure]
    · rcases List.mem_cons.1 ha with rfl | ha
      · exact le_rfl
      · have := ih a ha
        omega

def failuresAt (offset : ℕ) (attempts : List Attempt) : ℕ := attempts.countP fun a => a.offset = offset ∧ a.res = -1

theorem failuresAt_replicate (o k offset requested : ℕ) :
    failuresAt o (List.replicate k (failure offset requested)) = if offset = o then k else 0 := by
  simp [failuresAt, failure, List.countP_replicate]

theorem failuresAt_success (o offset requested count : ℕ) (more : List Attempt) :
    failuresAt o (⟨offset, requested, count⟩ :: more) = failuresAt o more := by
  have hne : (count : ℤ) ≠ -1 := by omega
  simp [failuresAt, hne]

theorem Writes.failuresAt_lt (h : Writes len offset attempts closes) (hc : closes = 0) (o : ℕ) :
    failuresAt o attempts < maxRetryCount := by
  have hpos : 0 < maxRetryCount := by decide
  induction h with
  | giveUp => cases hc
  | finish tries pos end_eq =>
    rw [failuresAt, List.countP_append, ← failuresAt, ← failuresAt, failuresAt_replicate, failuresAt_success]
    split_ifs
    · simpa [failuresAt] using tries
    · simpa [failuresAt] using hpos
  | @resume offset k count closes more tries pos lt next ih =>
    rw [failuresAt, List.countP_append, ← failuresAt, ← failuresAt, failuresAt_replicate, failuresAt_success]
    split_ifs with ho
    · -- the later attempts are at greater offsets
      have hzero : failuresAt o more = 0 := by
        rw [failuresAt, List.countP_eq_zero]
        intro a ha
        have := next.le_offset a ha
        have hne : a.offset ≠ o := by omega
        simp [hne]
      omega
    · have := ih hc
      omega

theorem Writes.closes_cases (h : Writes len offset attempts closes) : closes = 0 ∨ closes = 1 := by
  induction h with
  | giveUp => exact .inr rfl
  | finish => exact .inl rfl
  | resume _ _ _ _ ih => exact ih

theorem Writes.gaveUp_iff (h : Writes len offset attempts closes) : GaveUp attempts ↔ closes = 1 := by
  constructor
  · rintro ⟨o, requested, hrun⟩
    by_contra hne
    have hc : closes = 0 := h.closes_cases.resolve_right hne
    have hlt := h.failuresAt_lt hc o
    have hle : failuresAt o (List.replicate maxRetryCount (failure o requested)) ≤ failuresAt o attempts :=
      hrun.sublist.countP_le
    rw [failuresAt_replicate, if_pos rfl] at hle
    omega
  · intro hc
    induction h with
    | giveUp => exact ⟨_, _, List.infix_rfl⟩
    | finish => cases hc
    | @resume offset k count closes more _ _ _ next ih =>
      obtain ⟨o, requested, hrun⟩ := ih hc
      refine ⟨o, requested, hrun.trans ?_⟩
      refine List.IsSuffix.isInfix ?_
      exact (List.suffix_cons _ more).trans (List.suffix_append _ _)

theorem inStep_failures {offset k : ℕ} {more : List Attempt} (h : InStep len offset more) :
    InStep len offset (List.replicate k (failure offset (len - offset)) ++ more) := by
  induction k with
  | zero => exact h
  | succ k ih => exact ⟨rfl, rfl, ih⟩

theorem Writes.inStep (h : Writes len offset attempts closes) : InStep len offset attempts := by
  induction h with
  | @giveUp offset lt =>
    have hnil : InStep len offset [] := trivial
    simpa using inStep_failures (k := maxRetryCount) hnil
  | finish tries pos end_eq => exact inStep_failures ⟨rfl, rfl, trivial⟩
  | resume tries pos lt next ih => exact inStep_failures ⟨rfl, rfl, by simpa using ih⟩

end Accepted

theorem Writes.attempts_ne_nil {len offset closes : ℕ} {attempts : List Attempt} (h : Writes len offset attempts closes) :
    attempts ≠ [] := by
  cases h with
  | giveUp =>
    rw [Ne, List.replicate_eq_nil_iff]
    decide
  | finish | resume => simp

theorem writeBuffer_writes (socket : Socket) (clock : ℕ) {buffer : List UInt8} (hb : buffer ≠ []) :
    Writes buffer.length 0 (writeBuffer socket clock buffer).1 (writeBuffer socket clock buffer).2 := by
  have hpos : buffer.length > 0 := List.length_pos_of_ne_nil hb
  rw [writeBuffer, if_pos hpos]
  exact writeLoop_writes socket (Nat.zero_add _) hpos le_rfl

/-- Short writes are resumed exactly. -/
theorem short_writes_resumed (socket : Socket) (clock : ℕ) (buffer : List UInt8) :
    ∃ attempts closes, writeBuffer socket clock buffer = (attempts, closes) ∧
      accepted buffer attempts <+: buffer ∧ InStep buffer.length 0 attempts ∧
      (accepted buffer attempts = buffer ↔ ¬ GaveUp attempts) ∧
      (GaveUp attempts → closes = 1) ∧ (¬ GaveUp attempts → closes = 0) := by
  by_cases hb : buffer = []
  · subst hb
    have hno : ¬ GaveUp [] := by
      rintro ⟨offset, requested, hrun⟩
      have := hrun.length_le
      rw [List.length_replicate, List.length_nil] at this
      exact absurd this (by decide)
    exact ⟨[], 0, rfl, List.prefix_rfl, trivial, by simp [accepted, hno], fun h => absurd h hno, fun _ => rfl⟩
  · have hw := writeBuffer_writes socket clock hb
    have hgave := hw.gaveUp_iff
    refine ⟨(writeBuffer socket clock buffer).1, (writeBuffer socket clock buffer).2, rfl, ?_, hw.inStep,
      ?_, hgave.1, fun hno => hw.closes_cases.resolve_right fun hc => hno (hgave.2 hc)⟩
    · rcases hw.accepted_eq with ⟨-, he⟩ | ⟨-, rest, -, he⟩
      · exact he ▸ List.prefix_rfl
      · exact ⟨rest, he⟩
    · rw [hgave]
      rcases hw.accepted_eq with ⟨hc, he⟩ | ⟨hc, rest, hne, he⟩
      · exact iff_of_true (by simpa using he) (by omega)
      · refine iff_of_false (fun hall => hne ?_) (not_not.2 hc)
        rw [hall, List.drop_zero] at he
        simpa using he

/-- The last permitted attempt succeeds: the connection stays. -/
example : (writeBuffer (fun clock n => if h : 199 ≤ clock ∧ 0 < n then some ⟨n - 1, by omega⟩ else none) 0
    [83, 84]).2 = 0 := by decide +kernel

end StompBroker.WriteLoop
