import StompBroker.AcceptEpoll
import StompBroker.Monitor

/-! The reader thread at the input queue. The epoll thread enqueues up to a limit, writers put purge
messages at the head, and a poison pill ends the reader; each of these calls signals when it enqueues. -/
namespace StompBroker.ReaderWait
open CString SessionStorage Message AcceptEpoll TransitionSystem Monitor

/-- A message of the input queue, and whether it was put at the head. -/
structure Item where
  atHead : Bool
  message : MessageWithTimestamp
  deriving DecidableEq, Repr

inductive Reader
  | idle
  | handling (x : Item)
  | ended
  deriving DecidableEq, Repr

/-- `handled` lists the messages that the reader is done with, oldest first. -/
structure Inbox where
  queue : List Item
  waiting : Bool
  reader : Reader
  handled : List Item
  deriving DecidableEq, Repr

/-- Calls of the producers, and steps of the reader. An enqueue under a limit may be refused. -/
inductive Event
  | tsEnqueue (m : MessageWithTimestamp)
  | tsEnqueueLimited (m : MessageWithTimestamp) (accepted : Bool)
  | tsPutHead (m : MessageWithTimestamp)
  | condWait
  | condReturn
  | take
  | finish
  deriving DecidableEq, Repr

def messagePoisonPillWithTimestamp : MessageWithTimestamp := messageCreateWithTimestamp poisonFd (lit "KILL") 0

def inboxStart : Inbox := ⟨[], false, .idle, []⟩

def inboxStep (limit : ℕ) (b : Inbox) : Event → Option Inbox
  | .tsEnqueue m => some { b with queue := b.queue ++ [⟨false, m⟩], waiting := false }
  | .tsEnqueueLimited m accepted =>
      let (queue, ok) := tsEnqueueLimited b.queue ⟨false, m⟩ limit
      if ok = accepted then some { b with queue := queue, waiting := b.waiting && !ok } else none
  | .tsPutHead m => some { b with queue := ⟨true, m⟩ :: b.queue, waiting := false }
  | .condWait => if b.waiting = false ∧ b.reader = .idle ∧ b.queue = [] then some { b with waiting := true } else none
  | .condReturn => if b.waiting then some { b with waiting := false } else none
  | .take =>
      if b.waiting then none
      else match b.reader, b.queue with
        | .idle, x :: queue => some { b with queue := queue, reader := .handling x }
        | _, _ => none
  | .finish =>
      match b.reader with
      | .handling x => some { b with
          reader := if x.message.fd = poisonFd then .ended else .idle
          handled := b.handled ++ [x] }
      | _ => none

abbrev Runs (limit : ℕ) := Run (Steps (inboxStep limit))

/-- The messages that a call puts at the end of the queue. -/
def Event.enqueued : Event → List MessageWithTimestamp
  | .tsEnqueue m => [m]
  | .tsEnqueueLimited m accepted => if accepted then [m] else []
  | _ => []

def Event.putAtHead : Event → List MessageWithTimestamp
  | .tsPutHead m => [m]
  | _ => []

def Event.ofReader : Event → Bool
  | .condWait | .condReturn | .take | .finish => true
  | _ => false

def isPill (x : Item) : Bool := x.message.fd == poisonFd

def atReader : Reader → List Item
  | .handling x => [x]
  | _ => []

def line (b : Inbox) : List Item := b.handled ++ atReader b.reader ++ b.queue

def ordinary (xs : List Item) : List MessageWithTimestamp := (xs.filter fun x => !x.atHead).map Item.message

def urgent (xs : List Item) : List MessageWithTimestamp := (xs.filter Item.atHead).map Item.message

variable {limit : ℕ} {b b' : Inbox} {e : Event} {events : List Event}

inductive InboxChange (limit : ℕ) (b : Inbox) : Event → Inbox → Prop
  | enqueued (m : MessageWithTimestamp) :
      InboxChange limit b (.tsEnqueue m) { b with queue := b.queue ++ [⟨false, m⟩], waiting := false }
  | accepted (m : MessageWithTimestamp) (hlt : b.queue.length < limit) :
      InboxChange limit b (.tsEnqueueLimited m true) { b with queue := b.queue ++ [⟨false, m⟩], waiting := false }
  | refused (m : MessageWithTimestamp) : InboxChange limit b (.tsEnqueueLimited m false) b
  | atHead (m : MessageWithTimestamp) :
      InboxChange limit b (.tsPutHead m) { b with queue := ⟨true, m⟩ :: b.queue, waiting := false }
  | waits (hnot : b.waiting = false) (hidle : b.reader = .idle) (hq : b.queue = []) :
      InboxChange limit b .condWait { b with waiting := true }
  | returns (hw : b.waiting = true) : InboxChange limit b .condReturn { b with waiting := false }
  | takes (x : Item) (queue : List Item) (hnot : b.waiting = false) (hidle : b.reader = .idle) (hq : b.queue = x :: queue) :
      InboxChange limit b .take { b with queue := queue, reader := .handling x }
  | finishes (x : Item) (hx : b.reader = .handling x) :
      InboxChange limit b .finish { b with
        reader := if x.message.fd = poisonFd then .ended else .idle
        handled := b.handled ++ [x] }

theorem inboxStep_change (hs : inboxStep limit b e = some b') : InboxChange limit b e b' := by
  cases e with
  | tsEnqueue m =>
    obtain rfl := Option.some_inj.1 hs
    exact .enqueued m
  | tsEnqueueLimited m accepted =>
    simp only [inboxStep, tsEnqueueLimited] at hs
    split_ifs at hs with hlt hok hok
    · obtain rfl := Option.some_inj.1 hs
      obtain rfl : true = accepted := hok
      simpa using InboxChange.accepted m hlt
    · obtain rfl := Option.some_inj.1 hs
      obtain rfl : false = accepted := hok
      simpa using InboxChange.refused m
  | tsPutHead m =>
    obtain rfl := Option.some_inj.1 hs
    exact .atHead m
  | condWait =>
    simp only [inboxStep] at hs
    split_ifs at hs with hidle
    obtain rfl := Option.some_inj.1 hs
    exact .waits hidle.1 hidle.2.1 hidle.2.2
  | condReturn =>
    simp only [inboxStep] at hs
    split_ifs at hs with hw
    obtain rfl := Option.some_inj.1 hs
    exact .returns hw
  | take =>
    simp only [inboxStep] at hs
    split_ifs at hs with hw
    split at hs
    · rename_i x queue hidle hq
      obtain rfl := Option.some_inj.1 hs
      exact .takes x queue (by simpa using hw) hidle hq
    · cases hs
  | finish =>
    simp only [inboxStep] at hs
    split at hs
    · rename_i x hx
      obtain rfl := Option.some_inj.1 hs
      exact .finishes x hx
    · cases hs

def phaseOf (waiting : Bool) : Reader → Phase
  | .idle => if waiting then .asleep else .ready
  | .handling x => if x.message.fd = poisonFd then .stopping else .busy
  | .ended => .gone

def monitor (b : Inbox) : State Unit Item := ⟨b.queue, fun _ => phaseOf b.waiting b.reader⟩

def WaiterIdle (b : Inbox) : Prop := b.waiting = true → b.reader = .idle

def acts : Event → List (Act Unit Item)
  | .tsEnqueue m => [.put [⟨false, m⟩]]
  | .tsEnqueueLimited m accepted => if accepted then [.put [⟨false, m⟩]] else []
  | .tsPutHead m => [.put [⟨true, m⟩]]
  | .condWait => [.sleep ()]
  | .condReturn => [.wake ()]
  | .take => [.take ()]
  | .finish => [.done ()]

theorem update_phase (b b' : Inbox) :
    Function.update (monitor b).phase () (phaseOf b'.waiting b'.reader) = (monitor b').phase := by
  funext w
  simp [monitor]

theorem simulate_update {a : Act Unit Item} {new : Phase}
    (hs : Step isPill (monitor b) a ⟨b'.queue, Function.update (monitor b).phase () new⟩)
    (hnew : phaseOf b'.waiting b'.reader = new) : Run (Step isPill) (monitor b) [a] (monitor b') := by
  rw [← hnew, update_phase] at hs
  exact .one hs

theorem signalled (hi : WaiterIdle b) :
    Signalled (monitor b).phase (fun _ => phaseOf false b.reader) := by
  cases hw : b.waiting with
  | true =>
    have hasleep : (monitor b).phase () = .asleep := by simp [monitor, hw, hi hw, phaseOf]
    have hready : phaseOf false b.reader = .ready := by simp [hi hw, phaseOf]
    have hphase := update_phase b { b with waiting := false }
    simp only [hready] at hphase
    rw [show (fun _ : Unit => phaseOf false b.reader) = (monitor { b with waiting := false }).phase from rfl, ← hphase]
    exact .one () hasleep
  | false =>
    have hsame : (fun _ : Unit => phaseOf false b.reader) = (monitor b).phase := by simp [monitor, hw]
    rw [hsame]
    refine .nobody fun w => ?_
    cases hr : b.reader with
    | idle => simp [monitor, hw, hr, phaseOf]
    | handling x =>
      simp only [monitor, hr, phaseOf]
      split_ifs <;> simp
    | ended => simp [monitor, hr, phaseOf]

theorem simulate_put {queue : List Item} (hi : WaiterIdle b) (x : Item) (hq : queue.Perm (b.queue ++ [x])) :
    Step isPill (monitor b) (.put [x]) (monitor { b with queue := queue, waiting := false }) :=
  .put [x] (.inl rfl) hq (signalled hi)

theorem WaiterIdle.step (h : WaiterIdle b) (hs : inboxStep limit b e = some b') : WaiterIdle b' := by
  intro hw
  cases inboxStep_change hs with
  | enqueued | accepted | atHead | returns => cases hw
  | refused => exact h hw
  | waits _ hidle => exact hidle
  | takes x queue hnot =>
    rw [hnot] at hw
    cases hw
  | finishes x hx =>
    rw [h hw] at hx
    cases hx

theorem simulate_step (hi : WaiterIdle b) (hs : inboxStep limit b e = some b') :
    Run (Step isPill) (monitor b) (acts e) (monitor b') := by
  cases inboxStep_change hs with
  | enqueued m | accepted m => exact .one (simulate_put hi ⟨false, m⟩ (.refl _))
  | refused => exact .nil _
  | atHead m => exact .one (simulate_put hi ⟨true, m⟩ (List.perm_append_singleton _ _).symm)
  | waits hnot hidle hq =>
    have hready : (monitor b).phase () = .ready := by simp [monitor, hnot, hidle, phaseOf]
    exact simulate_update (.sleep () hready hq) (by simp [hidle, phaseOf])
  | returns hw =>
    have hasleep : (monitor b).phase () = .asleep := by simp [monitor, hw, hi hw, phaseOf]
    exact simulate_update (.wake () hasleep) (by simp [hi hw, phaseOf])
  | takes x queue hnot hidle hq =>
    have hready : (monitor b).phase () = .ready := by simp [monitor, hnot, hidle, phaseOf]
    have hperm : ([x] ++ queue).Perm (monitor b).queue := by simp [monitor, hq]
    refine simulate_update (.take () [x] queue hready hperm (by simp) ?_) ?_
    · exact List.countP_le_length
    · by_cases hx : x.message.fd = poisonFd <;> simp [phaseOf, isPill, hx]
  | finishes x hx =>
    have hnot : b.waiting = false := by
      by_contra hw
      rw [hi (by simpa using hw)] at hx
      cases hx
    by_cases hp : x.message.fd = poisonFd
    · have hstopping : (monitor b).phase () = .stopping := by simp [monitor, hx, hp, phaseOf]
      exact simulate_update (.leave () hstopping) (by simp [hp, phaseOf])
    · have hbusy : (monitor b).phase () = .busy := by simp [monitor, hx, hp, phaseOf]
      exact simulate_update (.done () hbusy) (by simp [hp, hnot, phaseOf])

theorem waiterIdle_run (h : Runs limit inboxStart events b) : WaiterIdle b :=
  h.invariant (by simp [WaiterIdle, inboxStart]) fun _ _ _ hi hs => hi.step hs

theorem simulate_run (hi : WaiterIdle b) (h : Runs limit b events b') :
    Run (Step isPill) (monitor b) (events.flatMap acts) (monitor b') := by
  have hstep : ∀ (b : Inbox) (e : Event) (b' : Inbox) (t : State Unit Item), e ∈ events →
      (WaiterIdle b ∧ t = monitor b) → Steps (inboxStep limit) b e b' →
      ∃ t', (WaiterIdle b' ∧ t' = monitor b') ∧ Run (Step isPill) t (acts e) t' := by
    rintro b e b' t - ⟨hi, rfl⟩ hs
    exact ⟨_, ⟨hi.step hs, rfl⟩, simulate_step hi hs⟩
  obtain ⟨t, ⟨-, rfl⟩, hrun⟩ := h.simulate ⟨hi, rfl⟩ hstep
  exact hrun

theorem attended_inbox (h : Runs limit inboxStart events b) : Attended isPill (monitor b) := by
  refine attended_run (simulate_run (by simp [WaiterIdle, inboxStart]) h) (.inl ?_)
  exact tally_eq_zero.2 fun w => rfl

theorem tally_unit (P : Phase → Bool) (b : Inbox) :
    tally P (monitor b).phase = (P (phaseOf b.waiting b.reader)).toNat := by
  simp [tally, monitor]

theorem ordinary_append (xs ys : List Item) : ordinary (xs ++ ys) = ordinary xs ++ ordinary ys := by
  simp [ordinary]

theorem urgent_append (xs ys : List Item) : urgent (xs ++ ys) = urgent xs ++ urgent ys := by
  simp [urgent]

theorem line_step (hs : inboxStep limit b e = some b') :
    ordinary (line b') = ordinary (line b) ++ e.enqueued ∧ (urgent (line b')).Perm (urgent (line b) ++ e.putAtHead) := by
  cases inboxStep_change hs with
  | enqueued | accepted | refused => simp [line, ordinary, urgent, Event.enqueued, Event.putAtHead]
  | atHead m =>
    have hsplit : ∀ xs : List Item, urgent (⟨true, m⟩ :: xs) = m :: urgent xs := fun xs => by simp [urgent]
    refine ⟨by simp [line, ordinary, Event.enqueued], ?_⟩
    simp only [line, urgent_append, hsplit, Event.putAtHead]
    exact List.perm_middle.trans (List.perm_append_singleton _ _).symm
  | waits | returns => simp [line, Event.enqueued, Event.putAtHead]
  | takes x queue hnot hidle hq => simp [line, atReader, hidle, hq, Event.enqueued, Event.putAtHead]
  | finishes x hx =>
    have hnone : atReader (if x.message.fd = poisonFd then .ended else .idle) = [] := by
      split_ifs <;> rfl
    simp only [line, hnone, hx, Event.enqueued, Event.putAtHead, List.append_nil]
    exact ⟨rfl, .refl _⟩

theorem line_run (h : Runs limit inboxStart events b) :
    ordinary (line b) = events.flatMap Event.enqueued ∧ (urgent (line b)).Perm (events.flatMap Event.putAtHead) := by
  induction h with
  | nil => exact ⟨rfl, .refl _⟩
  | snoc prior last ih =>
    obtain ⟨hord, hurg⟩ := line_step last
    rw [List.flatMap_append, List.flatMap_append, List.flatMap_singleton, List.flatMap_singleton, ← ih.1]
    exact ⟨hord, hurg.trans (ih.2.append_right _)⟩

def HeadFirst (b : Inbox) : Prop := b.queue.Pairwise fun x y => y.atHead = true → x.atHead = true

def Event.unlimited : Event → Bool
  | .tsEnqueue _ | .tsPutHead _ => true
  | _ => false

/-- What a step does to the queue. -/
theorem queue_step (hs : inboxStep limit b e = some b') :
    (∃ m, b'.queue = b.queue ++ [⟨false, m⟩] ∧ (e.unlimited = true ∨ b.queue.length < limit)) ∨
      (∃ m, b'.queue = ⟨true, m⟩ :: b.queue ∧ e.unlimited = true) ∨ ∃ xs, b.queue = xs ++ b'.queue := by
  cases inboxStep_change hs with
  | enqueued m => exact .inl ⟨m, rfl, .inl rfl⟩
  | accepted m hlt => exact .inl ⟨m, rfl, .inr hlt⟩
  | atHead m => exact .inr (.inl ⟨m, rfl, rfl⟩)
  | takes x queue _ _ hq => exact .inr (.inr ⟨[x], hq⟩)
  | refused | waits | returns | finishes => exact .inr (.inr ⟨[], rfl⟩)

theorem HeadFirst.step (h : HeadFirst b) (hs : inboxStep limit b e = some b') : HeadFirst b' := by
  rw [HeadFirst] at h ⊢
  rcases queue_step hs with ⟨m, hq, -⟩ | ⟨m, hq, -⟩ | ⟨xs, hq⟩
  · rw [hq, List.pairwise_append]
    exact ⟨h, List.pairwise_singleton _ _, by simp⟩
  · rw [hq, List.pairwise_cons]
    exact ⟨fun _ _ _ => rfl, h⟩
  · exact h.sublist (hq ▸ List.sublist_append_right xs b'.queue)

theorem length_le_run (h : Runs limit inboxStart events b) : b.queue.length ≤ limit + events.countP Event.unlimited := by
  induction h with
  | nil => exact Nat.zero_le _
  | @snoc c b events e prior last ih =>
    rw [List.countP_append, List.countP_singleton]
    rcases queue_step last with ⟨m, hq, hwhy⟩ | ⟨m, hq, hwhy⟩ | ⟨xs, hq⟩
    · rw [hq, List.length_append, List.length_singleton]
      rcases hwhy with hwhy | hwhy
      · rw [if_pos hwhy]
        omega
      · omega
    · rw [hq, List.length_cons, if_pos hwhy]
      omega
    · rw [hq, List.length_append] at ih
      omega

/-- The reader never waits at a message; it gets what the queue takes from the epoll thread in order, and
what is put at the head before all that still waits; the limit holds but for the unlimited calls. -/
theorem reader_serves_in_order (h : Runs limit inboxStart events b) :
    (b.waiting = true → b.queue = []) ∧ ordinary (line b) = events.flatMap Event.enqueued ∧
      (urgent (line b)).Perm (events.flatMap Event.putAtHead) ∧ HeadFirst b ∧
      b.queue.length ≤ limit + events.countP Event.unlimited := by
  have hi := waiterIdle_run h
  obtain ⟨hord, hurg⟩ := line_run h
  refine ⟨fun hw => ?_, hord, hurg, h.invariant List.Pairwise.nil fun _ _ _ hi hs => hi.step hs, length_le_run h⟩
  have hattended := attended_inbox h
  rw [Attended, tally_unit, tally_unit, hw, hi hw] at hattended
  simp only [phaseOf, if_true, Phase.sleeps, Phase.awake, Bool.toNat_true, Bool.toNat_false, Nat.one_ne_zero, false_or,
    Nat.le_zero] at hattended
  exact eq_nil_of_load hattended

/-- A text wakes the reader, a purge overtakes a second text, and a third one finds the queue full. -/
def busyInbox : List Event :=
  [.condWait, .tsEnqueueLimited (messageCreateWithTimestamp 5 (lit "a") 1) true, .take,
    .tsEnqueueLimited (messageCreateWithTimestamp 6 (lit "b") 2) true,
    .tsPutHead (messageCreateWithTimestamp (sessionSetCmdPurge 7) (lit "CMD") 0),
    .tsEnqueueLimited (messageCreateWithTimestamp 5 (lit "c") 3) false]

theorem reader_serves_in_order_busyInbox : ∃ b, Runs 2 inboxStart busyInbox b ∧ b.queue.length = 2 ∧
    ordinary (line b) = busyInbox.flatMap Event.enqueued ∧ HeadFirst b := by
  obtain ⟨b, hrun, hlen⟩ : ∃ b, Runs 2 inboxStart busyInbox b ∧ b.queue.length = 2 :=
    exists_run_of_exec (P := fun b : Inbox => b.queue.length = 2) (by decide)
  obtain ⟨-, hord, -, hfirst, -⟩ := reader_serves_in_order hrun
  exact ⟨b, hrun, hlen, hord, hfirst⟩

/-- The reader has ended at a poison pill, the last message that it handled. -/
def EndedAtPill (b : Inbox) : Prop := b.reader = .ended → ∃ x ∈ b.handled, isPill x = true

theorem EndedAtPill.step (h : EndedAtPill b) (hs : inboxStep limit b e = some b') : EndedAtPill b' := by
  intro hended
  cases inboxStep_change hs with
  | enqueued | accepted | refused | atHead | waits | returns => exact h hended
  | takes => cases hended
  | finishes x hx =>
    by_cases hp : x.message.fd = poisonFd
    · exact ⟨x, by simp, by simp [isPill, hp]⟩
    · simp [hp] at hended

theorem items_acts (e : Event) : ((acts e).flatMap Act.items).length = (e.enqueued ++ e.putAtHead).length := by
  cases e with
  | tsEnqueueLimited m accepted => cases accepted <;> rfl
  | tsEnqueue | tsPutHead | condWait | condReturn | take | finish => rfl

theorem items_flatMap_acts (events : List Event) : ((events.flatMap acts).flatMap Act.items).length =
    (events.flatMap fun e => e.enqueued ++ e.putAtHead).length := by
  induction events with
  | nil => rfl
  | cons e events ih =>
    rw [List.flatMap_cons, List.flatMap_append, List.length_append, items_acts, ih, List.flatMap_cons]
    exact List.length_append.symm

theorem ofConsumer_acts (events : List Event) : (events.flatMap acts).countP Act.ofConsumer = events.countP Event.ofReader := by
  induction events with
  | nil => rfl
  | cons e events ih =>
    have hone : (acts e).countP Act.ofConsumer = if e.ofReader = true then 1 else 0 := by
      cases e with
      | tsEnqueueLimited m accepted => cases accepted <;> rfl
      | tsEnqueue | tsPutHead | condWait | condReturn | take | finish => rfl
    rw [List.flatMap_cons, List.countP_append, ih, hone, List.countP_cons, Nat.add_comm]

theorem closing_of_pill (h : Runs limit inboxStart events b) (hk : .tsEnqueue messagePoisonPillWithTimestamp ∈ events) :
    Closing isPill (monitor b) := by
  have hstops := run_stops (simulate_run (by simp [WaiterIdle, inboxStart]) h)
  have hpos : 0 < stops isPill (events.flatMap acts) := by
    refine List.countP_pos_iff.2 ⟨⟨false, messagePoisonPillWithTimestamp⟩, ?_, rfl⟩
    rw [List.flatMap_assoc]
    exact List.mem_flatMap.2 ⟨_, hk, by simp [acts, Act.items]⟩
  rw [Closing, Fintype.card_unit]
  omega

theorem Closing.reader_can_step (h : Closing isPill (monitor b)) (hw : b.waiting = false) (hne : b.reader ≠ .ended) :
    ∃ e : Event, e.ofReader = true ∧ inboxStep limit b e ≠ none := by
  cases hr : b.reader with
  | idle =>
    have hready : (monitor b).phase () = .ready := by simp [monitor, hw, hr, phaseOf]
    obtain ⟨x, queue, hq⟩ := List.exists_cons_of_ne_nil (h.queue_ne_nil hready)
    refine ⟨.take, rfl, ?_⟩
    have hqueue : b.queue = x :: queue := hq
    simp [inboxStep, hw, hr, hqueue]
  | handling x => exact ⟨.finish, rfl, by simp [inboxStep, hr]⟩
  | ended => exact absurd hr hne

theorem front_covered_of_mem {α : Type*} {front back handled rest : List α} {x : α} (h : handled ++ rest = front ++ back)
    (hx : x ∈ handled) (hnot : x ∉ front) : front <+: handled := by
  rcases List.append_eq_append_iff.1 h with ⟨as, hfront, -⟩ | ⟨bs, hhandled, -⟩
  · exact absurd (hfront ▸ List.mem_append_left as hx) hnot
  · exact ⟨bs, hhandled.symm⟩

theorem mem_ordinary_handled (h : Runs limit inboxStart events b) {x : Item} (hx : x ∈ b.handled)
    (hnone : ∀ e ∈ events, x.message ∉ e.putAtHead) : x.message ∈ ordinary b.handled := by
  have hordinary : x.atHead = false := by
    by_contra hat
    have hmem : x.message ∈ urgent (line b) := by
      refine List.mem_map.2 ⟨x, List.mem_filter.2 ⟨?_, by simpa using hat⟩, rfl⟩
      simp [line, hx]
    obtain ⟨e, he, hput⟩ := List.mem_flatMap.1 ((line_run h).2.mem_iff.1 hmem)
    exact hnone e he hput
  exact List.mem_map.2 ⟨x, List.mem_filter.2 ⟨hx, by simp [hordinary]⟩, rfl⟩

/-- A reader that has ended at the only pill has handled what was enqueued before it. -/
theorem handled_before_pill {before after : List Event}
    (h : Runs limit inboxStart (before ++ .tsEnqueue messagePoisonPillWithTimestamp :: after) b)
    (hone : ∀ e ∈ before ++ after, ∀ m ∈ e.enqueued ++ e.putAtHead, m.fd ≠ poisonFd) (hended : b.reader = .ended) :
    before.flatMap Event.enqueued <+: ordinary b.handled := by
  have hinv : EndedAtPill b := h.invariant (by simp [EndedAtPill, inboxStart]) fun _ _ _ hi hs => hi.step hs
  obtain ⟨x, hx, hpill⟩ := hinv hended
  have hfd : x.message.fd = poisonFd := by simpa [isPill] using hpill
  have hnone : ∀ e ∈ before ++ after, x.message ∉ e.enqueued ++ e.putAtHead := fun e he hmem => hone e he _ hmem hfd
  have hmem : x.message ∈ ordinary b.handled := by
    refine mem_ordinary_handled h hx fun e he hput => ?_
    rcases List.mem_append.1 he with he | he
    · exact hnone e (List.mem_append_left _ he) (List.mem_append_right _ hput)
    · rcases List.mem_cons.1 he with rfl | he
      · cases hput
      · exact hnone e (List.mem_append_right _ he) (List.mem_append_right _ hput)
  have hord := (line_run h).1
  rw [line, hended, ordinary_append, ordinary_append, List.append_assoc, List.flatMap_append] at hord
  refine front_covered_of_mem hord hmem fun hbefore => ?_
  obtain ⟨e, he, henq⟩ := List.mem_flatMap.1 hbefore
  exact hnone e (List.mem_append_left _ he) (List.mem_append_left _ henq)

/-- Once `process_kill_threads` has enqueued its pill the reader waits no more, takes a bounded number of steps,
and ends; by then it has handled all that the queue took from the epoll thread before the pill. -/
theorem reader_drains {before after more : List Event}
    (h : Runs limit inboxStart (before ++ .tsEnqueue messagePoisonPillWithTimestamp :: after) b) (hm : Runs limit b more b')
    (hone : ∀ e ∈ before ++ after ++ more, ∀ m ∈ e.enqueued ++ e.putAtHead, m.fd ≠ poisonFd) :
    b'.waiting = false ∧
      more.countP Event.ofReader ≤ 2 * (b.queue.length + (more.flatMap fun e => e.enqueued ++ e.putAtHead).length) + 1 ∧
      ((∀ e : Event, e.ofReader = true → inboxStep limit b' e = none) → b'.reader = .ended) ∧
      (b'.reader = .ended → before.flatMap Event.enqueued <+: ordinary b'.handled) := by
  have hclosing := closing_of_pill h (by simp)
  have hsim := simulate_run (waiterIdle_run h) hm
  have hclosed : Closing isPill (monitor b') := hsim.invariant hclosing fun _ _ _ hi hs => hi.step hs
  have hawake : b'.waiting = false := by
    have hsleeps := hclosed.nobody_asleep (attended_inbox (h.append hm))
    rw [tally_unit] at hsleeps
    by_contra hnot
    have hw : b'.waiting = true := by simpa using hnot
    simp [waiterIdle_run (h.append hm) hw, hw, phaseOf, Phase.sleeps] at hsleeps
  refine ⟨hawake, ?_, fun hstuck => ?_, fun hended => ?_⟩
  · have hwork := hclosing.run_le (attended_inbox h) hsim
    have hat : tally Phase.works (monitor b).phase ≤ 1 := tally_le_card _ _
    rw [ofConsumer_acts, items_flatMap_acts, workLeft, workLeft] at hwork
    have hlen : (monitor b).queue.length = b.queue.length := rfl
    omega
  · by_contra hne
    obtain ⟨e, he, hcan⟩ := @Closing.reader_can_step limit b' hclosed hawake hne
    exact hcan (hstuck e he)
  · have hrun := h.append hm
    rw [List.append_assoc, List.cons_append] at hrun
    exact handled_before_pill hrun (fun e he => hone e (by rwa [List.append_assoc])) hended

def lastMessages : List Event := [.finish, .take, .finish, .take, .finish, .take, .finish]

theorem reader_drains_busyInbox :
    ∃ b b', Runs 2 inboxStart (busyInbox ++ [.tsEnqueue messagePoisonPillWithTimestamp]) b ∧ Runs 2 b lastMessages b' ∧
      b'.reader = .ended ∧ busyInbox.flatMap Event.enqueued <+: ordinary b'.handled := by
  have hexec : (exec (inboxStep 2) inboxStart ((busyInbox ++ [.tsEnqueue messagePoisonPillWithTimestamp]) ++ lastMessages)).map
      (fun b : Inbox => decide (b.reader = .ended)) = some true := by decide
  obtain ⟨b', hb', hended⟩ := Option.map_eq_some_iff.1 hexec
  rw [exec_append] at hb'
  obtain ⟨b, hb, hb'⟩ := Option.bind_eq_some_iff.1 hb'
  obtain ⟨-, -, -, hdrained⟩ := @reader_drains 2 b b' busyInbox [] lastMessages (run_of_exec hb) (run_of_exec hb') (by decide)
  exact ⟨b, b', run_of_exec hb, run_of_exec hb', of_decide_eq_true hended, hdrained (of_decide_eq_true hended)⟩

end StompBroker.ReaderWait
