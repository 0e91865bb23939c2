import StompBroker.WriterThread

/-! The batch of a writer and its buffer: the lengths predicted when the messages were created
against the lengths that the output filter produces. -/
namespace StompBroker.OutputBuffer
open CString SessionStorage Message Dataframe GreedyPrefix WriterThread

def defaultOutputBufferSize : ℕ := 10000

def wireLen (m : MessageWithFrameLen) : ℕ := (wsOutputFilter m).length

/-- By how much the predicted length of a message falls short of the sent one. A websocket
frame is measured without the closing NUL, which misses by one header size at the two limits;
an HTTP answer is sent without the NUL that was counted, and for descriptors that are not
positive neither header nor NUL is counted. -/
def shortfall (m : MessageWithFrameLen) : ℤ :=
  let len := m.content.length
  if sessionIsEncoded m.fd then
    if m.fd.toInt > 0 then if len = 125 then 2 else if len = 65535 then 6 else 0
    else if len < 125 then 3 else if len < 65535 then 5 else 11
  else if strncasecmpEq m.content (lit "HTTP") 4 then if m.fd.toInt > 0 then -1 else 0
  else if m.fd.toInt > 0 then 0 else 1

/-- The queue of messages created for the given descriptors and texts. -/
def created (sources : List (Fd × CStr)) : List MessageWithFrameLen :=
  sources.map fun p => messageCreateWithFrameLen p.1 p.2

/-- The sent length is the predicted one and the shortfall. -/
theorem wireLen_create (fd : Fd) (str : CStr) :
    (wireLen (messageCreateWithFrameLen fd str) : ℤ) =
      (messageCreateWithFrameLen fd str).frameLen +
        shortfall (messageCreateWithFrameLen fd str) := by
  cases he : sessionIsEncoded fd with
  | true =>
    simp only [wireLen, wsOutputFilter, messageCreateWithFrameLen, shortfall, he, if_true,
      length_encodeWebsocketFrame]
    split_ifs <;> push_cast <;> omega
  | false =>
    cases hh : strncasecmpEq str (lit "HTTP") 4 with
    | true =>
      simp [wireLen, wsOutputFilter, messageCreateWithFrameLen, shortfall, he, hh]
      split_ifs <;> omega
    | false =>
      simp [wireLen, wsOutputFilter, messageCreateWithFrameLen, shortfall, he, hh]
      split_ifs <;> omega

theorem total_wireLen {c : List MessageWithFrameLen}
    (h : ∀ m ∈ c, m = messageCreateWithFrameLen m.fd m.content) :
    (total wireLen c : ℤ) = total (·.frameLen) c + (c.map shortfall).sum := by
  induction c with
  | nil => rfl
  | cons m c ih =>
    have hm := wireLen_create m.fd m.content
    rw [← h m (by simp)] at hm
    have hc := ih fun x hx => h x (by simp [hx])
    simp only [total_cons, List.map_cons, List.sum_cons]
    push_cast
    omega

theorem mem_candidates {q : List MessageWithFrameLen} {m : MessageWithFrameLen}
    (h : m ∈ candidates id q) : m ∈ q := by
  induction q with
  | nil => simp [candidates] at h
  | cons x q ih =>
    unfold candidates at h
    split_ifs at h
    · simp at h
    · rcases List.mem_cons.mp h with rfl | h
      · simp
      · exact List.mem_cons_of_mem x (ih h)
    · rcases List.mem_cons.mp h with rfl | h
      · simp
      · have hl := List.mem_of_mem_filter h
        exact List.mem_cons_of_mem x ((List.takeWhile_sublist _).mem hl)

/-- A batch fits the buffer exactly when, on every run of candidates that the predicted lengths
admit, these lengths and their shortfalls together do. -/
theorem batch_fits_iff (bufferSize : ℕ) (sources : List (Fd × CStr)) :
    total wireLen (sendable id
        (tsDequeueMultipleMessagesForSameFd id (created sources) bufferSize).1) ≤ bufferSize ↔
    ∀ k, Admitted (·.frameLen) messagesBatchSize bufferSize (alwaysPicked id (created sources))
        (candidates id (created sources)) k →
      (total (·.frameLen) ((candidates id (created sources)).take k) : ℤ) +
        (((candidates id (created sources)).take k).map shortfall).sum ≤ bufferSize := by
  obtain ⟨k, hk, hb⟩ := pickUp_candidates id 0 bufferSize (created sources)
  rw [tsDequeueMultipleMessagesForSameFd, hb, ← forall_admitted_total_le_iff hk]
  refine forall_congr' fun j => forall_congr' fun _ => ?_
  rw [← total_wireLen, Int.ofNat_le]
  intro m hm
  have hq := mem_candidates (List.mem_of_mem_take hm)
  obtain ⟨p, _, rfl⟩ := List.mem_map.mp hq
  rfl

/-- A message of descriptor 5 whose text alone fills the buffer. -/
def fullText : CStr := List.replicate defaultOutputBufferSize 65

theorem wireLen_fullText : wireLen (messageCreateWithFrameLen 5 fullText) = 10001 := by
  have he : sessionIsEncoded 5 = false := by decide
  have hh : strncasecmpEq fullText (lit "HTTP") 4 = false := by
    rw [strncasecmpEq, fullText, List.take_replicate]
    decide
  have hl : fullText.length = 10000 := List.length_replicate
  rw [wireLen, wsOutputFilter, messageCreateWithFrameLen_fd, messageCreateWithFrameLen_content, he,
    hh, if_neg Bool.false_ne_true, if_neg Bool.false_ne_true, List.length_append, hl]
  rfl

/-- It is picked up first, without a look at its length, and sent with its NUL. -/
theorem fullText_overflows :
    ¬ total wireLen (sendable id (tsDequeueMultipleMessagesForSameFd id
      (created [(5, fullText)]) defaultOutputBufferSize).1) ≤ defaultOutputBufferSize := by
  have hp : isPoison id (messageCreateWithFrameLen 5 fullText) = false := rfl
  rw [tsDequeueMultipleMessagesForSameFd, created, List.map_singleton,
    pickUp_first [] (by decide) hp rfl, sendable_cons _ hp, total_cons, wireLen_fullText]
  unfold defaultOutputBufferSize
  omega

end StompBroker.OutputBuffer
