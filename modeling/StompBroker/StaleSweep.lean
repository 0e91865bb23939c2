import StompBroker.Distribute
import StompBroker.Queue

/-! The sweep of the stale queue at the level of its cells. Each message meets one of three
fates; the walk unlinks it, unlinks it and builds a frame, or passes it. -/
namespace StompBroker.StaleSweep
open CString AssociativeArray SessionStorage Message StompParser PubSub Distribute LinkedCells Queue

/-- The frame that a new subscription gets for a stale message; `none` when a missing body or an
empty header map is used. -/
def staleFrame (topic : CStr) (clientSessionId : Fd) (subscriptionId : CStr) (messageId : BitVec 32)
    (pm : ParsedMessage) : Option MessageWithFrameLen := do
  let body ← pm.messageBody
  let headers ← messageHeaders pm body
  let headers := aaPut headers (lit "message-id") (itoa messageId)
  let headers := aaPut headers (lit "destination") topic
  let headers := aaPut headers (lit "subscription") subscriptionId
  return messageSendWithHeaders clientSessionId headers body

/-- The loop over the stale queue, with the counter of message ids and the frames built so far. -/
def sweepLoop (now : ℤ) (ttl : BitVec 32) (topic : CStr) (clientSessionId : Fd) (subscriptionId : CStr) :
    ℕ → Linked ParsedMessage → Option ℕ → Option ℕ → BitVec 32 → Linked MessageWithFrameLen →
      Option (Linked ParsedMessage × BitVec 32 × Linked MessageWithFrameLen)
  | _, staleQueue, _, none, messageId, messagesOut => some (staleQueue, messageId, messagesOut)
  | 0, _, _, some _, _, _ => none
  | fuel + 1, staleQueue, parent, some qItem, messageId, messagesOut => do
      let processedItem ← staleQueue.heap.load qItem
      let pm := processedItem.data
      if expired now pm.ts ttl then
        let staleQueue ← unchainChild staleQueue parent qItem
        let (staleQueue, next) ← staleQueue.release qItem
        sweepLoop now ttl topic clientSessionId subscriptionId fuel staleQueue parent next messageId messagesOut
      else
        let messageTopic ← pm.topic
        if staleMatches topic messageTopic then
          let staleQueue ← unchainChild staleQueue parent qItem
          let o ← staleFrame topic clientSessionId subscriptionId messageId pm
          let messagesOut ← listAdd messagesOut o
          let (staleQueue, next) ← staleQueue.release qItem
          sweepLoop now ttl topic clientSessionId subscriptionId fuel staleQueue parent next (messageId + 1) messagesOut
        else
          sweepLoop now ttl topic clientSessionId subscriptionId fuel staleQueue (some qItem) processedItem.next
            messageId messagesOut

def distributeMessagesFromStaleQ (now : ℤ) (topic : CStr) (clientSessionId : Fd) (subscriptionId : CStr)
    (staleQueue : Linked ParsedMessage) (outputQueue : Linked MessageWithFrameLen) (messageId : BitVec 32)
    (configuredTtl : BitVec 32) : Option (Linked ParsedMessage × Linked MessageWithFrameLen × BitVec 32) := do
  let (staleQueue, messageId, messagesOut) ← sweepLoop now configuredTtl topic clientSessionId subscriptionId
    staleQueue.heap.length staleQueue none staleQueue.first messageId listNew
  let outputQueue ← if messagesOut.size > 0 then tsEnqueueMultiple outputQueue messagesOut else some outputQueue
  return (staleQueue, outputQueue, messageId)

inductive Fate
  | expired | delivered | kept
  deriving DecidableEq, Repr

def fate (now : ℤ) (ttl : BitVec 32) (topic : CStr) (pm : ParsedMessage) : Fate :=
  if expired now pm.ts ttl then .expired
  else if pm.topic.any (staleMatches topic) then .delivered
  else .kept

def withFate (now : ℤ) (ttl : BitVec 32) (topic : CStr) (f : Fate) (nodes : List (ℕ × ParsedMessage)) :
    List (ℕ × ParsedMessage) :=
  nodes.filter fun n => fate now ttl topic n.2 = f

structure Deliverable (pm : ParsedMessage) : Prop where
  topic : pm.topic ≠ none
  body : pm.messageBody ≠ none
  headers : pm.headers ≠ .nil

/-- The parser gives every message with a destination a header map. -/
theorem deliverable_of_parsed {past : List UInt8} {m : MessageWithTimestamp} {pm : ParsedMessage}
    (h : parseMessage past m = some pm) (ht : pm.topic ≠ none) (hb : pm.messageBody ≠ none) : Deliverable pm := by
  obtain ⟨t, ht'⟩ := Option.ne_none_iff_exists'.1 ht
  exact ⟨ht, hb, parseMessage_headers_ne_nil h ht'⟩

/-- One frame for each message, in order, with consecutive message ids. -/
inductive Relayed (topic : CStr) (clientSessionId : Fd) (subscriptionId : CStr) :
    BitVec 32 → List ParsedMessage → List MessageWithFrameLen → Prop
  | nil (messageId : BitVec 32) : Relayed topic clientSessionId subscriptionId messageId [] []
  | cons {messageId : BitVec 32} {pm : ParsedMessage} {pms : List ParsedMessage} {frame : MessageWithFrameLen}
      {frames : List MessageWithFrameLen} (one : staleFrame topic clientSessionId subscriptionId messageId pm = some frame)
      (others : Relayed topic clientSessionId subscriptionId (messageId + 1) pms frames) :
      Relayed topic clientSessionId subscriptionId messageId (pm :: pms) (frame :: frames)

section Frames
variable {topic subscriptionId : CStr} {clientSessionId : Fd} {messageId : BitVec 32} {pm : ParsedMessage}
  {pms : List ParsedMessage} {frame : MessageWithFrameLen} {frames : List MessageWithFrameLen}

theorem staleFrame_isSome (h : Deliverable pm) :
    ∃ frame, staleFrame topic clientSessionId subscriptionId messageId pm = some frame := by
  obtain ⟨body, hb⟩ := Option.ne_none_iff_exists'.1 h.body
  have hm := h.headers
  cases hh : pm.headers with
  | nil => exact absurd hh hm
  | node height key value left right => simp [staleFrame, hb, messageHeaders, hh, aaMerge]

theorem staleFrame_message (h : staleFrame topic clientSessionId subscriptionId messageId pm = some frame) :
    frame.isMessage = true ∧ frame.fd = clientSessionId := by
  obtain ⟨body, -, h⟩ := Option.bind_eq_some_iff.1 h
  obtain ⟨headers, -, h⟩ := Option.bind_eq_some_iff.1 h
  simp only [pure, Option.some.injEq] at h
  rw [← h]
  exact ⟨messageSendWithHeaders_isMessage _ _ _, rfl⟩

theorem Relayed.messages (h : Relayed topic clientSessionId subscriptionId messageId pms frames) :
    frames.length = pms.length ∧ ∀ frame ∈ frames, frame.isMessage = true ∧ frame.fd = clientSessionId := by
  induction h with
  | nil => simp
  | cons one _ ih =>
    refine ⟨by simp [ih.1], fun frame hf => ?_⟩
    rcases List.mem_cons.1 hf with rfl | hf
    · exact staleFrame_message one
    · exact ih.2 frame hf

end Frames

section Sweep
variable {now : ℤ} {ttl : BitVec 32} {topic subscriptionId : CStr} {clientSessionId : Fd}

theorem withFate_cons (f : Fate) (n : ℕ × ParsedMessage) (nodes : List (ℕ × ParsedMessage)) :
    withFate now ttl topic f (n :: nodes) =
      if fate now ttl topic n.2 = f then n :: withFate now ttl topic f nodes else withFate now ttl topic f nodes := by
  simp [withFate, List.filter_cons]

/-- Every message meets exactly one fate. -/
theorem withFate_perm (nodes : List (ℕ × ParsedMessage)) :
    (withFate now ttl topic .expired nodes ++ withFate now ttl topic .delivered nodes ++
      withFate now ttl topic .kept nodes).Perm nodes := by
  induction nodes with
  | nil => exact .nil
  | cons n nodes ih =>
    simp only [withFate_cons]
    cases fate now ttl topic n.2 with
    | expired => simpa using ih
    | delivered =>
      have hmid : (withFate now ttl topic .expired nodes ++ n :: withFate now ttl topic .delivered nodes ++
          withFate now ttl topic .kept nodes).Perm (n :: (withFate now ttl topic .expired nodes ++
            withFate now ttl topic .delivered nodes ++ withFate now ttl topic .kept nodes)) :=
        List.perm_middle.append_right _
      simpa using hmid.trans (ih.cons n)
    | kept => simpa using List.perm_middle.trans (ih.cons n)

theorem sweepLoop_holds {staleQueue : Linked ParsedMessage} {messagesOut : Linked MessageWithFrameLen}
    {kept rest : List (ℕ × ParsedMessage)} {outNodes : List (ℕ × MessageWithFrameLen)} {parent cursor : Option ℕ}
    {messageId : BitVec 32} {fuel : ℕ} (h : Walk staleQueue kept rest parent cursor) (hf : rest.length ≤ fuel)
    (ho : Holds messagesOut outNodes) (hd : ∀ n ∈ rest, Deliverable n.2) :
    ∃ staleQueue' messagesOut' added,
      sweepLoop now ttl topic clientSessionId subscriptionId fuel staleQueue parent cursor messageId messagesOut =
        some (staleQueue', messageId + BitVec.ofNat 32 added.length, messagesOut') ∧
      Holds staleQueue' (kept ++ withFate now ttl topic .kept rest) ∧
      Holds messagesOut' (outNodes ++ added) ∧
      Relayed topic clientSessionId subscriptionId messageId (values (withFate now ttl topic .delivered rest))
        (values added) := by
  induction rest generalizing staleQueue messagesOut kept outNodes parent cursor messageId fuel with
  | nil =>
    obtain rfl : cursor = none := h.cursor_eq
    exact ⟨staleQueue, messagesOut, [], by simp [sweepLoop], h.holds, by rwa [List.append_nil], .nil _⟩
  | cons n rest ih =>
    obtain ⟨a, pm⟩ := n
    obtain ⟨fuel, rfl⟩ : ∃ k, fuel = k + 1 := ⟨fuel - 1, by simp at hf; omega⟩
    have hf' : rest.length ≤ fuel := by simpa using hf
    have hd' : ∀ n ∈ rest, Deliverable n.2 := fun n hn => hd n (List.mem_cons_of_mem _ hn)
    have hpm : Deliverable pm := hd (a, pm) List.mem_cons_self
    obtain ⟨t, ht⟩ := Option.ne_none_iff_exists'.1 hpm.topic
    obtain ⟨rfl, hload⟩ := h.load
    obtain ⟨q₁, q₂, hchild, hrel, hwalk⟩ := unchainChild_release h
    cases he : expired now pm.ts ttl with
    | true =>
      have hfate : fate now ttl topic pm = .expired := by simp [fate, he]
      obtain ⟨q', out', added, hrun, hq, hout, hrelayed⟩ := @ih q₂ messagesOut kept outNodes parent
        (firstAddress rest) messageId fuel hwalk hf' ho hd'
      refine ⟨q', out', added, ?_, ?_, hout, ?_⟩
      · simpa [sweepLoop, hload, he, hchild, hrel] using hrun
      · simpa [withFate_cons, hfate] using hq
      · simpa [withFate_cons, hfate] using hrelayed
    | false =>
      cases hm : staleMatches topic t with
      | true =>
        have hfate : fate now ttl topic pm = .delivered := by simp [fate, he, ht, hm]
        obtain ⟨frame, hframe⟩ := @staleFrame_isSome topic subscriptionId clientSessionId messageId pm hpm
        obtain ⟨out₁, hadd, hout₁⟩ := listAdd_holds ho frame
        obtain ⟨q', out', added, hrun, hq, hout, hrelayed⟩ := @ih q₂ out₁ kept _ parent
          (firstAddress rest) (messageId + 1) fuel hwalk hf' hout₁ hd'
        refine ⟨q', out', (messagesOut.heap.length, frame) :: added, ?_, ?_, ?_, ?_⟩
        · rw [List.length_cons, ← succ_messageId]
          simpa [sweepLoop, hload, he, ht, hm, hchild, hframe, hadd, hrel] using hrun
        · simpa [withFate_cons, hfate] using hq
        · simpa using hout
        · simpa [withFate_cons, hfate, values] using Relayed.cons hframe hrelayed
      | false =>
        have hfate : fate now ttl topic pm = .kept := by simp [fate, he, ht, hm]
        obtain ⟨q', out', added, hrun, hq, hout, hrelayed⟩ := @ih staleQueue messagesOut (kept ++ [(a, pm)])
          outNodes (some a) (firstAddress rest) messageId fuel h.skip hf' ho hd'
        refine ⟨q', out', added, ?_, ?_, hout, ?_⟩
        · simpa [sweepLoop, hload, he, ht, hm] using hrun
        · simpa [withFate_cons, hfate] using hq
        · simpa [withFate_cons, hfate] using hrelayed

theorem sweepStale_relayed {pms : List ParsedMessage} (hd : ∀ pm ∈ pms, Deliverable pm) (messageId : BitVec 32) :
    ∃ frames, sweepStale now ttl topic clientSessionId subscriptionId pms messageId =
        some (pms.filter (fun pm => fate now ttl topic pm = .kept), messageId + BitVec.ofNat 32 frames.length, frames) ∧
      Relayed topic clientSessionId subscriptionId messageId
        (pms.filter fun pm => fate now ttl topic pm = .delivered) frames := by
  induction pms generalizing messageId with
  | nil => exact ⟨[], by simp [sweepStale], .nil _⟩
  | cons pm pms ih =>
    have hpm : Deliverable pm := hd pm List.mem_cons_self
    have ih := ih fun pm hm => hd pm (List.mem_cons_of_mem _ hm)
    obtain ⟨t, ht⟩ := Option.ne_none_iff_exists'.1 hpm.topic
    cases he : expired now pm.ts ttl with
    | true =>
      have hfate : fate now ttl topic pm = .expired := by simp [fate, he]
      obtain ⟨frames, hrun, hrelayed⟩ := ih messageId
      exact ⟨frames, by simp [sweepStale, he, hrun, hfate], by simpa [hfate] using hrelayed⟩
    | false =>
      cases hm : staleMatches topic t with
      | true =>
        have hfate : fate now ttl topic pm = .delivered := by simp [fate, he, ht, hm]
        obtain ⟨frame, hframe⟩ := @staleFrame_isSome topic subscriptionId clientSessionId messageId pm hpm
        obtain ⟨frames, hrun, hrelayed⟩ := ih (messageId + 1)
        refine ⟨frame :: frames, ?_, by simpa [hfate] using Relayed.cons hframe hrelayed⟩
        obtain ⟨body, hb, hframe⟩ := Option.bind_eq_some_iff.1 hframe
        obtain ⟨headers, hh, hframe⟩ := Option.bind_eq_some_iff.1 hframe
        simp only [pure, Option.some.injEq] at hframe
        have hone : (1 : BitVec 32) = 1#32 := rfl
        rw [hone] at hrun
        rw [List.length_cons, ← succ_messageId]
        simp [sweepStale, he, ht, hm, hb, hh, deliver, addNextMessageId, hframe, hrun, hfate]
      | false =>
        have hfate : fate now ttl topic pm = .kept := by simp [fate, he, ht, hm]
        obtain ⟨frames, hrun, hrelayed⟩ := ih messageId
        exact ⟨frames, by simp [sweepStale, he, ht, hm, hrun, hfate], by simpa [hfate] using hrelayed⟩

theorem Relayed.unique {messageId : BitVec 32} {pms : List ParsedMessage} {frames frames' : List MessageWithFrameLen}
    (h : Relayed topic clientSessionId subscriptionId messageId pms frames)
    (h' : Relayed topic clientSessionId subscriptionId messageId pms frames') : frames = frames' := by
  induction h generalizing frames' with
  | nil => cases h' with | nil => rfl
  | cons one _ ih =>
    cases h' with
    | cons one' others' =>
      rw [ih others', Option.some_inj.1 (one.symm.trans one')]

theorem values_withFate (f : Fate) (nodes : List (ℕ × ParsedMessage)) :
    values (withFate now ttl topic f nodes) = (values nodes).filter fun pm => fate now ttl topic pm = f := by
  rw [values, values, withFate, List.filter_map]
  rfl

end Sweep

section Distribution
variable {staleQueue : Linked ParsedMessage} {outputQueue : Linked MessageWithFrameLen}
  {nodes : List (ℕ × ParsedMessage)} {outNodes : List (ℕ × MessageWithFrameLen)}

theorem distributeMessagesFromStaleQ_holds (h : Holds staleQueue nodes) (ho : Holds outputQueue outNodes)
    (hd : ∀ n ∈ nodes, Deliverable n.2) (now : ℤ) (topic : CStr) (clientSessionId : Fd) (subscriptionId : CStr)
    (messageId configuredTtl : BitVec 32) :
    ∃ staleQueue' outputQueue' added,
      distributeMessagesFromStaleQ now topic clientSessionId subscriptionId staleQueue outputQueue messageId
        configuredTtl = some (staleQueue', outputQueue', messageId + BitVec.ofNat 32 added.length) ∧
      Holds staleQueue' (withFate now configuredTtl topic .kept nodes) ∧ Holds outputQueue' (outNodes ++ added) ∧
      Relayed topic clientSessionId subscriptionId messageId
        (values (withFate now configuredTtl topic .delivered nodes)) (values added) := by
  obtain ⟨q', out', frames, hrun, hq, hout, hrelayed⟩ := @sweepLoop_holds now configuredTtl topic subscriptionId
    clientSessionId staleQueue listNew [] nodes [] none staleQueue.first messageId staleQueue.heap.length
    (Walk.start h) h.length_le holds_empty hd
  rw [List.nil_append] at hq hout
  by_cases hs : out'.size > 0
  · obtain ⟨outputQueue', added, hmany, hholds, hv⟩ := tsEnqueueMultiple_holds ho hout
    have hlen : added.length = frames.length := by simpa [values] using congrArg List.length hv
    exact ⟨q', outputQueue', added, by simp [distributeMessagesFromStaleQ, hrun, hs, hmany, hlen], hq, hholds, hv ▸ hrelayed⟩
  · obtain rfl : frames = [] := by
      rw [hout.size] at hs
      exact List.length_eq_zero_iff.1 (by omega)
    exact ⟨q', outputQueue, [], by simp [distributeMessagesFromStaleQ, hrun, hs], hq, by rwa [List.append_nil], hrelayed⟩

theorem distributeMessagesFromStaleQ_refines {env : Environment} {st : StompState} (h : Holds staleQueue nodes)
    (ho : Holds outputQueue outNodes) (hd : ∀ n ∈ nodes, Deliverable n.2) (hstale : st.stale = values nodes)
    (hout : st.output = values outNodes) (topic : CStr) (clientSessionId : Fd) (subscriptionId : CStr)
    (ttl : BitVec 32) :
    ∃ staleQueue' outputQueue' nodes' outNodes' st',
      distributeMessagesFromStaleQ env.now topic clientSessionId subscriptionId staleQueue outputQueue st.messageId
        ttl = some (staleQueue', outputQueue', st'.messageId) ∧
      Distribute.distributeMessagesFromStaleQ env st topic clientSessionId subscriptionId ttl = some st' ∧
      Holds staleQueue' nodes' ∧ st'.stale = values nodes' ∧
      Holds outputQueue' outNodes' ∧ st'.output = values outNodes' := by
  obtain ⟨q', out', added, hrun, hq, hholds, hrelayed⟩ := distributeMessagesFromStaleQ_holds h ho hd env.now topic
    clientSessionId subscriptionId st.messageId ttl
  have hd' : ∀ pm ∈ values nodes, Deliverable pm := by
    intro pm hm
    obtain ⟨n, hn, rfl⟩ := List.mem_map.1 hm
    exact hd n hn
  obtain ⟨frames, hsweep, hframes⟩ := @sweepStale_relayed env.now ttl topic subscriptionId clientSessionId _ hd'
    st.messageId
  rw [← values_withFate] at hsweep hframes
  obtain rfl := hrelayed.unique hframes
  refine ⟨q', out', _, _, { st with
    stale := values (withFate env.now ttl topic .kept nodes)
    messageId := st.messageId + BitVec.ofNat 32 (values added).length
    output := st.output ++ values added }, ?_, ?_, hq, rfl, hholds, ?_⟩
  · simp [hrun, values]
  · simp [Distribute.distributeMessagesFromStaleQ, hstale, hsweep]
  · simp [values, hout]

/-- The sweep of the stale queue is a stable partition. -/
theorem stale_sweep_partition (h : Holds staleQueue nodes) (ho : Holds outputQueue outNodes)
    (hd : ∀ n ∈ nodes, Deliverable n.2) (now : ℤ) (topic : CStr) (clientSessionId : Fd) (subscriptionId : CStr)
    (messageId configuredTtl : BitVec 32) :
    ∃ staleQueue' outputQueue' messageId' dropped delivered kept frames,
      distributeMessagesFromStaleQ now topic clientSessionId subscriptionId staleQueue outputQueue messageId
        configuredTtl = some (staleQueue', outputQueue', messageId') ∧
      dropped = nodes.filter (fun n => fate now configuredTtl topic n.2 = .expired) ∧
      delivered = nodes.filter (fun n => fate now configuredTtl topic n.2 = .delivered) ∧
      kept = nodes.filter (fun n => fate now configuredTtl topic n.2 = .kept) ∧
      (dropped ++ delivered ++ kept).Perm nodes ∧
      Chain staleQueue'.heap staleQueue'.first kept none ∧ staleQueue'.last = lastAddress kept ∧
      staleQueue'.size = kept.length ∧
      Holds outputQueue' (outNodes ++ frames) ∧
      Relayed topic clientSessionId subscriptionId messageId (values delivered) (values frames) ∧
      frames.length = delivered.length ∧
      ∀ n ∈ frames, n.2.isMessage = true ∧ n.2.fd = clientSessionId := by
  obtain ⟨q', out', added, hrun, hq, hholds, hrelayed⟩ := distributeMessagesFromStaleQ_holds h ho hd now topic
    clientSessionId subscriptionId messageId configuredTtl
  obtain ⟨hlen, hmessages⟩ := hrelayed.messages
  rw [values, values, List.length_map, List.length_map] at hlen
  refine ⟨q', out', _, _, _, _, added, hrun, rfl, rfl, rfl, withFate_perm nodes, hq.chain, hq.last, hq.size,
    hholds, hrelayed, hlen, fun n hn => ?_⟩
  exact hmessages n.2 (List.mem_map_of_mem hn)

/-- A parsed message with the given time, destination and a body. -/
def staleMessage (ts : ℤ) (topic : CStr) : ParsedMessage :=
  ⟨.send, aaItemCreate (lit "destination") topic, none, some (lit "x"), some topic, none, ts⟩

/-- Three stale messages of which the first is too old and the last matches. -/
def sampleStale : Linked ParsedMessage :=
  ⟨[some ⟨staleMessage 1 (lit "/a"), some 1⟩, some ⟨staleMessage 0 (lit "/b"), some 2⟩,
    some ⟨staleMessage 900 (lit "/a"), none⟩], some 0, some 2, 3⟩

def sampleStaleNodes : List (ℕ × ParsedMessage) :=
  [(0, staleMessage 1 (lit "/a")), (1, staleMessage 0 (lit "/b")), (2, staleMessage 900 (lit "/a"))]

theorem stale_sweep_partition_sample :
    ∃ staleQueue' outputQueue' messageId' frames,
      distributeMessagesFromStaleQ 1000 (lit "/a") 5 (lit "s") sampleStale queueInit 0 500 =
        some (staleQueue', outputQueue', messageId') ∧
      staleQueue'.size = 1 ∧ staleQueue'.last = some 1 ∧ Holds outputQueue' frames ∧ frames.length = 1 := by
  have hstale : Holds sampleStale sampleStaleNodes :=
    ⟨.cons rfl (.cons rfl (.cons rfl (.nil none))), by decide, by decide, by decide⟩
  have hd : ∀ n ∈ sampleStaleNodes, Deliverable n.2 := by
    intro n hn
    simp only [sampleStaleNodes, List.mem_cons, List.not_mem_nil, or_false] at hn
    rcases hn with rfl | rfl | rfl <;>
      exact ⟨by simp [staleMessage], by simp [staleMessage], by simp [staleMessage, aaItemCreate]⟩
  obtain ⟨q', out', m', _, _, _, frames, hrun, -, rfl, rfl, -, -, hlast, hsize, hholds, -, hlen, -⟩ :=
    stale_sweep_partition hstale holds_empty hd 1000 (lit "/a") 5 (lit "s") 0 500
  exact ⟨q', out', m', frames, hrun, hsize.trans (by decide), hlast.trans (by decide), hholds, hlen.trans (by decide)⟩

end Distribution

end StompBroker.StaleSweep
