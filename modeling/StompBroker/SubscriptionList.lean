import StompBroker.PubSub
import StompBroker.Queue
import StompBroker.TransitionSystem

/-! The subscription list at the level of its cells. Both ways of removing subscriptions walk
the list with a trailing pointer and delete behind it; the list operations of `PubSub` are what
the cells then hold. -/
namespace StompBroker.SubscriptionList
open CString SessionStorage PubSub LinkedCells Queue TransitionSystem

def pubsubSubscribe (topics : Linked Subscription) (topicStr : CStr) (clientSessionId : Fd)
    (subscriptionId : CStr) : Option (Linked Subscription) :=
  listAdd topics ⟨clientSessionId, topicStr, subscriptionId⟩

/-- The loop shared by both removals: `c` is the current item and `p` the one before it. -/
def removeLoop (remove : Subscription → Bool) :
    ℕ → Linked Subscription → Option ℕ → Option ℕ → Option (Linked Subscription)
  | _, topics, _, none => some topics
  | 0, _, _, some _ => none
  | fuel + 1, topics, p, some c => do
      let item ← topics.heap.load c
      if remove item.data then
        let topics ← topics.bypass p c item.next
        let heap ← topics.heap.free c
        -- the item is gone, so its successor is read from the place that led to it
        let topics := { topics with heap := heap }
        let next ← topics.link p
        removeLoop remove fuel { topics with size := topics.size - 1 } p next
      else removeLoop remove fuel topics (some c) item.next

def removeWhere (topics : Linked Subscription) (remove : Subscription → Bool) : Option (Linked Subscription) :=
  if topics.size = 0 then some topics
  else removeLoop remove topics.heap.length topics none topics.first

def pubsubUnsubscribe (topics : Linked Subscription) (topicStr : CStr) (clientSessionId : Fd)
    (subscriptionId : CStr) : Option (Linked Subscription) :=
  removeWhere topics fun sub => sub.sessionId == clientSessionId &&
    sub.topicPattern == topicStr && sub.id == subscriptionId

def pubsubRemoveClient (topics : Linked Subscription) (clientSessionId : Fd) : Option (Linked Subscription) :=
  removeWhere topics fun sub => sub.sessionId == clientSessionId

variable {topics : Linked Subscription} {nodes kept rest : List (ℕ × Subscription)} {p c : Option ℕ}

theorem removeLoop_remove {remove : Subscription → Bool} {a : ℕ} {sub : Subscription}
    (h : Walk topics kept ((a, sub) :: rest) p c) (hr : remove sub = true) (fuel : ℕ) :
    ∃ topics', removeLoop remove (fuel + 1) topics p c = removeLoop remove fuel topics' p (firstAddress rest) ∧
      Walk topics' kept rest p (firstAddress rest) := by
  obtain ⟨hc, hload⟩ := h.load
  obtain ⟨topics₁, hbypass, hsize, hload₁, hwalk⟩ := h.bypass
  rw [← hsize] at hwalk
  refine ⟨_, ?_, hwalk⟩
  have hlink : Linked.link { topics₁ with heap := topics₁.heap.set a none } p = some (firstAddress rest) :=
    hwalk.link
  have hfree : topics₁.heap.free a = some (topics₁.heap.set a none) := by simp [Heap.free, hload₁]
  subst hc
  simp [removeLoop, hload, hr, hbypass, hfree, hlink]

theorem removeLoop_holds {remove : Subscription → Bool} {fuel : ℕ} (h : Walk topics kept rest p c)
    (hf : rest.length ≤ fuel) :
    ∃ topics', removeLoop remove fuel topics p c = some topics' ∧
      Holds topics' (kept ++ rest.filter fun n => !remove n.2) := by
  induction rest generalizing topics kept p c fuel with
  | nil =>
    obtain rfl : c = none := h.cursor_eq
    exact ⟨topics, by rw [removeLoop], by simpa using h.holds⟩
  | cons n rest ih =>
    obtain ⟨a, sub⟩ := n
    obtain ⟨fuel, rfl⟩ : ∃ k, fuel = k + 1 := ⟨fuel - 1, by simp at hf; omega⟩
    have hf' : rest.length ≤ fuel := by simpa using hf
    cases hr : remove sub with
    | true =>
      obtain ⟨topics₁, hstep, hwalk⟩ := removeLoop_remove h hr fuel
      obtain ⟨topics', hrun, hholds⟩ := ih hwalk hf'
      exact ⟨topics', hstep.trans hrun, by simpa [hr] using hholds⟩
    | false =>
      obtain ⟨hc, hload⟩ := h.load
      obtain ⟨topics', hrun, hholds⟩ := ih h.skip hf'
      refine ⟨topics', ?_, by simpa [hr] using hholds⟩
      subst hc
      simp [removeLoop, hload, hr, hrun]

theorem removeWhere_holds (h : Holds topics nodes) (remove : Subscription → Bool) :
    ∃ topics', removeWhere topics remove = some topics' ∧ Holds topics' (nodes.filter fun n => !remove n.2) := by
  unfold removeWhere
  split_ifs with hs
  · obtain rfl := h.size_eq_zero.1 hs
    exact ⟨topics, rfl, h⟩
  · exact removeLoop_holds (Walk.start h) h.length_le

theorem values_filter (nodes : List (ℕ × Subscription)) (keep : Subscription → Bool) :
    values (nodes.filter fun n => keep n.2) = (values nodes).filter keep := by
  rw [values, values, List.filter_map]
  rfl

inductive TopicCall
  | subscribe (topicStr : CStr) (clientSessionId : Fd) (subscriptionId : CStr)
  | unsubscribe (topicStr : CStr) (clientSessionId : Fd) (subscriptionId : CStr)
  | removeClient (clientSessionId : Fd)

def topicStep (topics : Linked Subscription) : TopicCall → Option (Linked Subscription)
  | .subscribe t c i => pubsubSubscribe topics t c i
  | .unsubscribe t c i => pubsubUnsubscribe topics t c i
  | .removeClient c => pubsubRemoveClient topics c

def TopicCall.apply (topics : Topics) : TopicCall → Topics
  | .subscribe t c i => PubSub.pubsubSubscribe topics t c i
  | .unsubscribe t c i => PubSub.pubsubUnsubscribe topics t c i
  | .removeClient c => PubSub.pubsubRemoveClient topics c

theorem topicStep_holds (h : Holds topics nodes) (call : TopicCall) :
    ∃ topics' nodes', topicStep topics call = some topics' ∧ Holds topics' nodes' ∧
      values nodes' = call.apply (values nodes) := by
  cases call with
  | subscribe t c i =>
    obtain ⟨topics', hadd, hholds⟩ := listAdd_holds h ⟨c, t, i⟩
    exact ⟨topics', _, hadd, hholds, by simp [values, TopicCall.apply, PubSub.pubsubSubscribe]⟩
  | unsubscribe t c i =>
    obtain ⟨topics', hrun, hholds⟩ := removeWhere_holds h _
    exact ⟨topics', _, hrun, hholds,
      values_filter nodes fun sub => !(sub.sessionId == c && sub.topicPattern == t && sub.id == i)⟩
  | removeClient c =>
    obtain ⟨topics', hrun, hholds⟩ := removeWhere_holds h _
    exact ⟨topics', _, hrun, hholds, values_filter nodes fun sub => !(sub.sessionId == c)⟩

/-- From the empty list on the cells hold the sequence that the list operations compute. -/
theorem topics_refine (calls : List TopicCall) :
    ∃ topics nodes, exec topicStep listNew calls = some topics ∧ Holds topics nodes ∧
      values nodes = calls.foldl TopicCall.apply pubsubInit := by
  induction calls using List.reverseRecOn with
  | nil => exact ⟨listNew, [], rfl, holds_empty, rfl⟩
  | append_singleton calls call ih =>
    obtain ⟨topics, nodes, hrun, hholds, hv⟩ := ih
    obtain ⟨topics', nodes', hstep, hholds', hv'⟩ := topicStep_holds hholds call
    refine ⟨topics', nodes', ?_, hholds', ?_⟩
    · simp [exec_append, hrun, exec, hstep]
    · rw [hv', hv, List.foldl_append, List.foldl_cons, List.foldl_nil]

/-- A call leaves exactly the cells of the subscriptions to keep, in their order, with the end
pointers and the count right, and the next subscription goes behind them. -/
def Leaves (result : Option (Linked Subscription)) (nodes : List (ℕ × Subscription))
    (keep : Subscription → Bool) : Prop :=
  ∃ topics' remaining, result = some topics' ∧ remaining = nodes.filter (fun n => keep n.2) ∧
    Chain topics'.heap topics'.first remaining none ∧ topics'.size = remaining.length ∧
    topics'.last = lastAddress remaining ∧ (topics'.last = none ↔ remaining = []) ∧
    (topics'.first = none ↔ remaining = []) ∧
    ∀ (topicStr : CStr) (clientSessionId : Fd) (subscriptionId : CStr),
      ∃ topics'' new, pubsubSubscribe topics' topicStr clientSessionId subscriptionId = some topics'' ∧
        Holds topics'' (remaining ++ [(new, ⟨clientSessionId, topicStr, subscriptionId⟩)])

theorem leaves_removeWhere (h : Holds topics nodes) {remove keep : Subscription → Bool}
    (hk : ∀ sub, keep sub = !remove sub) : Leaves (removeWhere topics remove) nodes keep := by
  obtain ⟨topics', hrun, hholds⟩ := removeWhere_holds h remove
  simp only [← hk] at hholds
  refine ⟨topics', _, hrun, rfl, hholds.chain, hholds.size, hholds.last, hholds.last_eq_none,
    hholds.first_eq_none, fun topicStr clientSessionId subscriptionId => ?_⟩
  obtain ⟨topics'', hadd, hnew⟩ := listAdd_holds hholds ⟨clientSessionId, topicStr, subscriptionId⟩
  exact ⟨topics'', _, hadd, hnew⟩

/-- Removing subscriptions removes exactly the right ones. -/
theorem subscriptions_removed_exactly (h : Holds topics nodes) (topicStr : CStr) (clientSessionId : Fd)
    (subscriptionId : CStr) :
    Leaves (pubsubUnsubscribe topics topicStr clientSessionId subscriptionId) nodes (fun sub =>
      decide (sub.topicPattern ≠ topicStr ∨ sub.sessionId ≠ clientSessionId ∨ sub.id ≠ subscriptionId)) ∧
    Leaves (pubsubRemoveClient topics clientSessionId) nodes fun sub => decide (sub.sessionId ≠ clientSessionId) := by
  refine ⟨leaves_removeWhere h fun sub => ?_, leaves_removeWhere h fun sub => ?_⟩
  · rw [Bool.eq_iff_iff]
    simp only [decide_eq_true_eq, Bool.not_eq_true', Bool.and_eq_false_iff, beq_eq_false_iff_ne]
    tauto
  · rw [Bool.eq_iff_iff]
    simp

/-- A list whose first two items and whose last item go. -/
def sampleTopics : Linked Subscription :=
  ⟨[some ⟨⟨5, lit "/a", lit "1"⟩, some 1⟩, some ⟨⟨5, lit "/b", lit "2"⟩, some 2⟩,
    some ⟨⟨6, lit "/a", lit "1"⟩, some 3⟩, some ⟨⟨5, lit "/a", lit "3"⟩, none⟩], some 0, some 3, 4⟩

def sampleNodes : List (ℕ × Subscription) :=
  [(0, ⟨5, lit "/a", lit "1"⟩), (1, ⟨5, lit "/b", lit "2"⟩), (2, ⟨6, lit "/a", lit "1"⟩),
    (3, ⟨5, lit "/a", lit "3"⟩)]

theorem holds_sampleTopics : Holds sampleTopics sampleNodes :=
  ⟨.cons rfl (.cons rfl (.cons rfl (.cons rfl (.nil none)))), by decide, by decide, by decide⟩

theorem subscriptions_removed_exactly_sample :
    Leaves (pubsubRemoveClient sampleTopics 5) sampleNodes (fun sub => decide (sub.sessionId ≠ 5)) ∧
      (pubsubRemoveClient sampleTopics 5).map (fun t => (t.first, t.last, t.size)) = some (some 2, some 2, 1) :=
  ⟨(subscriptions_removed_exactly holds_sampleTopics (lit "/a") 5 (lit "1")).2, by decide⟩

end StompBroker.SubscriptionList
