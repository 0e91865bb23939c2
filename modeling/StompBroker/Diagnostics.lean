import StompBroker.BrokerHistory
import StompBroker.ConnectedBitmap
import StompBroker.SpecialFields

/-! What the diagnostics tell about a run of the reader. Their answers are read off the state; they are the counts
and the patterns of the history of calls. -/
namespace StompBroker.Diagnostics
open CString SessionStorage StompSession Message StompParser PubSub Distribute Stomp StompRun ReaderThread
open ConnectedBitmap BrokerHistory SpecialFields TransitionSystem
open AbstractBroker (Event Connected subscriptions)

/-- Patterns with commas between them; empty ones at the front leave no comma. -/
def listed (topics : Topics) : CStr := (lit ",").intercalate ((topics.map Subscription.topicPattern).dropWhile List.isEmpty)

noncomputable def connectedCount (es : List (Event Fd Fd Subscription ParsedMessage)) : ℕ :=
  Set.ncard {number : ℕ | number < maxNumberOfConnections ∧ Connected es (BitVec.ofNat 32 number)}

structure Asks (c : Call) (body : CStr) : Prop where
  no_pill : c.input.fd ≠ poisonFd
  no_request : isHttpRequest c.input.content = false
  no_purge : isPurge c.input.fd = false
  frame : ∃ pm, parseMessage c.env.past c.input = some pm ∧ pm.command = .diagnostic ∧ pm.messageBody = some body

theorem intercalate_snoc {separator p : CStr} {ps : List CStr} (h : ps ≠ []) :
    separator.intercalate (ps ++ [p]) = separator.intercalate ps ++ separator ++ p := by
  induction ps with
  | nil => exact absurd rfl h
  | cons q ps ih =>
    cases ps with
    | nil => simp
    | cons r ps =>
      rw [List.cons_append, List.cons_append, List.intercalate_cons_cons, ← List.cons_append, ih (List.cons_ne_nil r ps),
        List.intercalate_cons_cons]
      simp only [List.append_assoc]

theorem listed_snoc (topics : Topics) (sub : Subscription) :
    listed (topics ++ [sub]) = listed topics ++ (if (listed topics).length > 0 then lit "," else []) ++ sub.topicPattern := by
  unfold listed
  rw [List.map_append, List.map_singleton, List.dropWhile_append]
  rcases hps : (topics.map Subscription.topicPattern).dropWhile List.isEmpty with _ | ⟨p, ps⟩
  · cases hp : sub.topicPattern <;> simp [List.dropWhile]
  · have hpos : p ≠ [] := by
      have hhead := List.head?_dropWhile_not List.isEmpty (topics.map Subscription.topicPattern)
      rw [hps] at hhead
      simpa using hhead
    have hlen : ((lit ",").intercalate (p :: ps)).length > 0 := by
      cases ps with
      | nil => simpa [List.length_pos_iff] using hpos
      | cons q ps =>
        rw [List.intercalate_cons_cons, List.length_append, List.length_append]
        have := List.length_pos_of_ne_nil hpos
        omega
    rw [if_pos hlen, List.isEmpty_cons, if_neg (by decide), intercalate_snoc (List.cons_ne_nil p ps)]

/-- The loop appends patterns as long as they fit and stops at the first one that does not. -/
theorem pubsubToStr_listed (dstSize : ℕ) (before rest : Topics) :
    ∃ k, pubsubToStr dstSize (listed before) rest = listed (before ++ rest.take k) ∧
      (∀ sub, rest[k]? = some sub → sub.topicPattern.length + (listed (before ++ rest.take k)).length + 2 > dstSize) ∧
      ((listed before).length < dstSize → (listed (before ++ rest.take k)).length < dstSize) := by
  induction rest generalizing before with
  | nil => exact ⟨0, by simp [pubsubToStr], by simp, by simp⟩
  | cons sub rest ih =>
    rw [pubsubToStr]
    by_cases hfit : sub.topicPattern.length + (listed before).length + 2 > dstSize
    · rw [if_pos hfit]
      refine ⟨0, by simp, fun sub' hsub => ?_, by simp⟩
      obtain rfl : sub = sub' := by simpa using hsub
      simpa using hfit
    · obtain ⟨k, hall, hstop, hlen⟩ := ih (before ++ [sub])
      rw [if_neg hfit, ← listed_snoc, hall]
      refine ⟨k + 1, by simp, fun sub' hsub => ?_, fun hb => ?_⟩
      · simpa using hstop sub' (by simpa using hsub)
      · have hnext : (listed (before ++ [sub])).length < dstSize := by
          rw [listed_snoc, List.length_append, List.length_append]
          have hcomma : (if (listed before).length > 0 then lit "," else []).length ≤ 1 := by
            split_ifs
            · exact le_of_eq (by decide)
            · exact Nat.zero_le 1
          omega
        simpa using hlen hnext

theorem strncmpEq_apart {word name : CStr} {n : ℕ} (m : ℕ) (hn : m ≤ n) (hm : m ≤ word.length)
    (hne : word.take m ≠ name.take m)
    (rest : CStr) : strncmpEq (word ++ rest) name n = false := by
  rw [strncmpEq, beq_eq_false_iff_ne]
  intro heq
  have hfront := congrArg (List.take m) heq
  rw [List.take_take, List.take_take, min_eq_left hn, List.take_append_of_le_length hm] at hfront
  exact hne hfront

theorem strncmpEq_word (word rest : CStr) : strncmpEq (word ++ rest) word word.length = true :=
  strncmpEq_iff.2 (List.prefix_append word rest)

section Answers
variable (env : Environment) (st : StompState) (input : MessageWithTimestamp) (rest : CStr)

theorem answer_connectedSize : createDiagnosticMessage env st input (lit "session-connected-size" ++ rest) =
    messageDiagnostic input.fd (lit "session-connected-size" ++ rest) (decimal (stompSessionConnectedSize st.connected)) := by
  rw [createDiagnosticMessage, strncmpEq_apart 9 (by decide) (by decide) (by decide),
    strncmpEq_apart 9 (by decide) (by decide) (by decide),
    show (22 : ℕ) = (lit "session-connected-size").length by decide, strncmpEq_word]
  rfl

theorem answer_pubsubSize : createDiagnosticMessage env st input (lit "pubsub-size" ++ rest) =
    messageDiagnostic input.fd (lit "pubsub-size" ++ rest) (decimal (pubsubSize st.topics)) := by
  rw [createDiagnosticMessage, strncmpEq_apart 1 (by decide) (by decide) (by decide),
    strncmpEq_apart 1 (by decide) (by decide) (by decide),
    strncmpEq_apart 1 (by decide) (by decide) (by decide), show (11 : ℕ) = (lit "pubsub-size").length by decide, strncmpEq_word]
  rfl

theorem answer_subs : createDiagnosticMessage env st input (lit "subs" ++ rest) =
    messageDiagnostic input.fd (lit "subs" ++ rest) (pubsubToStr 4000 [] st.topics) := by
  rw [createDiagnosticMessage, strncmpEq_apart 2 (by decide) (by decide) (by decide),
    strncmpEq_apart 2 (by decide) (by decide) (by decide),
    strncmpEq_apart 2 (by decide) (by decide) (by decide), strncmpEq_apart 1 (by decide) (by decide) (by decide),
    strncmpEq_apart 2 (by decide) (by decide) (by decide), show (4 : ℕ) = (lit "subs").length by decide, strncmpEq_word]
  rfl

end Answers

section Runs
variable {createAcceptKey : CStr → CStr} {cfg : Config} {st : StompState} {calls : List Call} {c : Call} {body : CStr}

theorem asked_round (h : Asks c body) : readerThread createAcceptKey cfg st c =
    some { st with output := st.output ++ [createDiagnosticMessage c.env st c.input body] } := by
  obtain ⟨pm, hpm, hcmd, hbody⟩ := h.frame
  have hfilter : wsInputFilterHandshake createAcceptKey c.input = none := by
    rw [wsInputFilterHandshake, h.no_request]
    rfl
  simp [readerThread, h.no_pill, hfilter, stompStep, stompProcess_frame h.no_purge hpm, processCommand, hcmd, hbody, closingFrame]

theorem connectedSize_history (h : ∀ number, stompSessionIsConnected st.connected number = true ↔
    Connected (calls.map (meaning cfg.ttl)) number) :
    stompSessionConnectedSize st.connected = connectedCount (calls.map (meaning cfg.ttl)) := by
  rw [connectedSize_eq_card, ← Set.ncard_coe_finset, connectedCount]
  congr 1
  ext number
  simp [connectedSet, h]

/-- The answers to a DIAG frame are the counts and the patterns of the history of calls: who is connected, how many
subscriptions stand, and their patterns in order as far as they fit the buffer. -/
theorem diagnostics_tell_history (h : Run (Steps (readerThread createAcceptKey cfg)) stompStart calls st) (hask : Asks c body) :
    ∃ answer, readerThread createAcceptKey cfg st c = some { st with output := st.output ++ [answer] } ∧
      (lit "session-connected-size" <+: body →
        answer = messageDiagnostic c.input.fd body (decimal (connectedCount (calls.map (meaning cfg.ttl))))) ∧
      (lit "pubsub-size" <+: body →
        answer = messageDiagnostic c.input.fd body (decimal (subscriptions stompRules (calls.map (meaning cfg.ttl))).length)) ∧
      (lit "subs" <+: body → ∃ k,
        answer = messageDiagnostic c.input.fd body (listed ((subscriptions stompRules (calls.map (meaning cfg.ttl))).take k)) ∧
        (listed ((subscriptions stompRules (calls.map (meaning cfg.ttl))).take k)).length < 4000 ∧
        ∀ sub, (subscriptions stompRules (calls.map (meaning cfg.ttl)))[k]? = some sub →
          sub.topicPattern.length + (listed ((subscriptions stompRules (calls.map (meaning cfg.ttl))).take k)).length +
            2 > 4000) := by
  obtain ⟨hconnected, htopics, -⟩ := told_by_history h
  refine ⟨_, asked_round hask, ?_, ?_, ?_⟩
  · rintro ⟨rest, rfl⟩
    rw [answer_connectedSize, connectedSize_history hconnected]
  · rintro ⟨rest, rfl⟩
    rw [answer_pubsubSize, pubsubSize, htopics]
  · rintro ⟨rest, rfl⟩
    obtain ⟨k, hall, hstop, hlen⟩ := pubsubToStr_listed 4000 [] st.topics
    rw [htopics, List.nil_append] at hall hlen
    rw [htopics] at hstop
    refine ⟨k, ?_, hlen (by decide), fun sub hsub => hstop sub hsub⟩
    rw [answer_subs, htopics]
    exact congrArg _ hall

def subsCall : Call := ⟨quietEnvironment 0, ⟨9, lit "DIAG\n\nsubs", 0⟩⟩

theorem diagnostics_tell_history_subs :
    ∃ st, Run (Steps (readerThread id DistributeContract.lateConfig)) stompStart MessageIds.ownIdCalls st ∧
    st.topics.length = 1 ∧ ∃ answer k,
      readerThread id DistributeContract.lateConfig st subsCall = some { st with output := st.output ++ [answer] } ∧
      answer = messageDiagnostic 9 (lit "subs")
        (listed ((subscriptions stompRules (MessageIds.ownIdCalls.map (meaning DistributeContract.lateConfig.ttl))).take k)) := by
  obtain ⟨st, hrun, hone⟩ :
      ∃ st, Run (Steps (readerThread id DistributeContract.lateConfig)) stompStart MessageIds.ownIdCalls st ∧
      st.topics.length = 1 := exists_run_of_exec (by decide)
  have hask : Asks subsCall (lit "subs") := ⟨by decide, by decide, by decide, _, rfl, rfl, rfl⟩
  obtain ⟨answer, hround, -, -, hsubs⟩ := diagnostics_tell_history hrun hask
  obtain ⟨k, hanswer, -⟩ := hsubs List.prefix_rfl
  exact ⟨st, hrun, hone, answer, k, hround, hanswer⟩

end Runs

end StompBroker.Diagnostics
