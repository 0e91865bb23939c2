import StompBroker.Message

/-! The subscription list and its topic matcher. -/
namespace StompBroker.PubSub
open CString SessionStorage

structure Subscription where
  sessionId : Fd
  topicPattern : CStr
  id : CStr
  deriving DecidableEq, Repr

/-- The `topics` list in order of subscription. -/
abbrev Topics := List Subscription

def pubsubInit : Topics := []

def pubsubSubscribe (topics : Topics) (topicStr : CStr) (clientSessionId : Fd)
    (subscriptionId : CStr) : Topics :=
  topics ++ [⟨clientSessionId, topicStr, subscriptionId⟩]

def pubsubUnsubscribe (topics : Topics) (topicStr : CStr) (clientSessionId : Fd)
    (subscriptionId : CStr) : Topics :=
  topics.filter fun sub => !(sub.sessionId == clientSessionId &&
    sub.topicPattern == topicStr && sub.id == subscriptionId)

def pubsubRemoveClient (topics : Topics) (clientSessionId : Fd) : Topics :=
  topics.filter fun sub => !(sub.sessionId == clientSessionId)

def maskLen (text : CStr) : ℕ := (strchr text star).getD text.length

def topicMatches (topicMask pattern : CStr) : Bool :=
  let wildCard := strchr pattern star
  let len2 := maskLen pattern
  if (wildCard = none ∧ len2 ≠ maskLen topicMask) ∨ (wildCard ≠ none ∧ maskLen topicMask < len2) then
    false
  else strncmpEq topicMask pattern (if maskLen topicMask < len2 then maskLen topicMask else len2)

def pubsubFindMatching (topics : Topics) (topicMask : CStr) : List Subscription :=
  topics.filter fun sub => topicMatches topicMask sub.topicPattern

def pubsubSize (topics : Topics) : ℕ := topics.length

def pubsubToStr (dstSize : ℕ) : CStr → Topics → CStr
  | dst, [] => dst
  | dst, sub :: rest =>
      if sub.topicPattern.length + dst.length + 2 > dstSize then dst
      else pubsubToStr dstSize
        (dst ++ (if dst.length > 0 then lit "," else []) ++ sub.topicPattern) rest

theorem mem_pubsubRemoveClient {topics : Topics} {c : Fd} {sub : Subscription} :
    sub ∈ pubsubRemoveClient topics c ↔ sub ∈ topics ∧ sub.sessionId ≠ c := by
  simp [pubsubRemoveClient]

theorem mem_of_mem_pubsubUnsubscribe {topics : Topics} {t i : CStr} {c : Fd} {sub : Subscription}
    (h : sub ∈ pubsubUnsubscribe topics t c i) : sub ∈ topics :=
  (List.mem_filter.mp h).1

theorem mem_of_mem_pubsubFindMatching {topics : Topics} {t : CStr} {sub : Subscription}
    (h : sub ∈ pubsubFindMatching topics t) : sub ∈ topics :=
  (List.mem_filter.mp h).1

theorem filter_pubsubRemoveClient {topics : Topics} {c : Fd} {p : Subscription → Bool}
    (h : ∀ sub, p sub = true → sub.sessionId ≠ c) :
    (pubsubRemoveClient topics c).filter p = topics.filter p := by
  rw [pubsubRemoveClient, List.filter_filter]
  apply List.filter_congr
  intro sub _
  cases hp : p sub with
  | false => rfl
  | true => simpa using h sub hp

theorem filter_pubsubUnsubscribe {topics : Topics} {t i : CStr} {c : Fd} {p : Subscription → Bool}
    (h : ∀ sub, p sub = true → sub.sessionId ≠ c) :
    (pubsubUnsubscribe topics t c i).filter p = topics.filter p := by
  rw [pubsubUnsubscribe, List.filter_filter]
  apply List.filter_congr
  intro sub _
  cases hp : p sub with
  | false => rfl
  | true => simp [h sub hp]

theorem filter_pubsubSubscribe {topics : Topics} {t i : CStr} {c : Fd} {p : Subscription → Bool}
    (h : ∀ sub, p sub = true → sub.sessionId ≠ c) :
    (pubsubSubscribe topics t c i).filter p = topics.filter p := by
  rw [pubsubSubscribe, List.filter_append]
  have hn : p ⟨c, t, i⟩ = false := by
    cases hp : p ⟨c, t, i⟩ with
    | false => rfl
    | true => exact absurd rfl (h _ hp)
  simp [hn]

end StompBroker.PubSub
