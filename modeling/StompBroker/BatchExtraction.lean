import StompBroker.WriterThread
import StompBroker.Queue

/-! The batch extraction at the level of the queue's cells. The scan unlinks messages from the
middle of the queue while it walks on; `pickUp` is what it does to the sequence of messages. -/
namespace StompBroker.BatchExtraction
open SessionStorage Message WriterThread LinkedCells Queue
variable {α : Type}

/-- The scan under the queue lock. The array filled so far is `ret`. -/
def peekLoop (msg : α → MessageWithFrameLen) :
    ℕ → Linked α → Option ℕ → Option ℕ → ℕ → Fd → ℤ → List α → Option (Linked α × List α)
  | _, q, _, none, _, _, _, ret => some (q, ret)
  | 0, _, _, some _, _, _, _, _ => none
  | fuel + 1, q, parent, some peekCursor, index, firstFd, remainingLen, ret =>
      if ¬ (index < messagesBatchSize ∧ remainingLen > 0) then some (q, ret)
      else do
        let current ← q.heap.load peekCursor
        let m := msg current.data
        let pickUp := fun (firstFd : Fd) => do
          let q ← unchainChild q parent peekCursor
          let (q, next) ← q.release peekCursor
          peekLoop msg fuel q parent next (index + 1) firstFd (remainingLen - m.frameLen) (ret ++ [current.data])
        if m.fd = poisonFd then
          let q ← unchainChild q parent peekCursor
          let (q, _) ← q.release peekCursor
          return (q, ret ++ [current.data])
        else if firstFd = 0 then pickUp m.fd
        else if m.fd ≠ firstFd then
          peekLoop msg fuel q (some peekCursor) current.next index firstFd remainingLen ret
        else if (m.frameLen : ℤ) > remainingLen then return (q, ret)
        else pickUp firstFd

/-- `none` also stands for the wait on an empty queue. -/
def tsDequeueMultipleMessagesForSameFd (msg : α → MessageWithFrameLen) (q : Linked α) (bufferSize : ℕ) :
    Option (Linked α × List α) :=
  if q.size = 0 then none else peekLoop msg q.heap.length q none q.first 0 0 bufferSize []

def nodeMsg (msg : α → MessageWithFrameLen) (n : ℕ × α) : MessageWithFrameLen := msg n.2

section Refinement
variable {msg : α → MessageWithFrameLen} {q : Linked α} {nodes kept rest : List (ℕ × α)}
  {parent cursor : Option ℕ} {index fuel : ℕ} {firstFd : Fd} {remainingLen : ℤ} {ret : List α}

/-- What the scan of the cells has to end with, given what it does to the sequence. -/
def Scanned (result : Option (Linked α × List α)) (kept : List (ℕ × α)) (ret : List α)
    (picked : List (ℕ × α) × List (ℕ × α)) : Prop :=
  ∃ q', result = some (q', ret ++ values picked.1) ∧ Holds q' (kept ++ picked.2)

theorem peekLoop_scanned (h : Walk q kept rest parent cursor) (hf : rest.length ≤ fuel) :
    Scanned (peekLoop msg fuel q parent cursor index firstFd remainingLen ret) kept ret
      (pickUp (nodeMsg msg) index firstFd remainingLen rest) := by
  induction rest generalizing q kept parent cursor index fuel firstFd remainingLen ret with
  | nil =>
    obtain rfl : cursor = none := h.cursor_eq
    exact ⟨q, by simp [peekLoop, pickUp, values], h.holds⟩
  | cons n rest ih =>
    obtain ⟨a, x⟩ := n
    obtain ⟨fuel, rfl⟩ : ∃ k, fuel = k + 1 := ⟨fuel - 1, by simp at hf; omega⟩
    have hf' : rest.length ≤ fuel := by simpa using hf
    obtain ⟨rfl, hload⟩ := h.load
    by_cases hgo : index < messagesBatchSize ∧ remainingLen > 0
    swap
    · rw [pickUp_full rest hgo]
      exact ⟨q, by simp [peekLoop, hgo, values], h.holds⟩
    -- both ways of taking the cell out go through the same unlinking
    obtain ⟨q₁, q₂, hchild, hrel, hwalk⟩ := unchainChild_release h
    have hpick : ∀ fd : Fd, ∃ q', peekLoop msg fuel q₂ parent (firstAddress rest) (index + 1) fd
          (remainingLen - (msg x).frameLen) (ret ++ [x]) =
        some (q', ret ++ values ((a, x) :: (pickUp (nodeMsg msg) (index + 1) fd
          (remainingLen - (msg x).frameLen) rest).1)) ∧
        Holds q' (kept ++ (pickUp (nodeMsg msg) (index + 1) fd (remainingLen - (msg x).frameLen) rest).2) := by
      intro fd
      obtain ⟨q', hrun, hholds⟩ := @ih q₂ kept parent (firstAddress rest) (index + 1) fuel fd
        (remainingLen - (msg x).frameLen) (ret ++ [x]) hwalk hf'
      exact ⟨q', by simpa [values] using hrun, hholds⟩
    have hgo' : ¬ ¬ (index < messagesBatchSize ∧ remainingLen > 0) := not_not.2 hgo
    by_cases hp : (msg x).fd = poisonFd
    · rw [pickUp_poison rest hgo (isPoison_iff.2 hp)]
      refine ⟨q₂, ?_, hwalk.holds⟩
      simp only [peekLoop, if_neg hgo', hload, Option.bind_eq_bind, Option.bind_some, if_pos hp, hchild, hrel]
      rfl
    have hnp : isPoison (nodeMsg msg) (a, x) = false := isPoison_eq_false.2 hp
    by_cases h0 : firstFd = 0
    · obtain ⟨q', hrun, hholds⟩ := hpick (msg x).fd
      rw [pickUp_first rest hgo hnp h0]
      refine ⟨q', ?_, hholds⟩
      simp only [peekLoop, if_neg hgo', hload, Option.bind_eq_bind, Option.bind_some, if_neg hp, if_pos h0, hchild, hrel]
      exact hrun
    by_cases hfd : (msg x).fd = firstFd
    swap
    · obtain ⟨q', hrun, hholds⟩ := @ih q (kept ++ [(a, x)]) (some a) (firstAddress rest) index fuel firstFd
        remainingLen ret h.skip hf'
      rw [pickUp_other rest hgo hnp h0 hfd]
      refine ⟨q', ?_, by simpa using hholds⟩
      simp only [peekLoop, if_neg hgo', hload, Option.bind_eq_bind, Option.bind_some, if_neg hp, if_neg h0, if_pos hfd]
      exact hrun
    have hfd' : ¬ (msg x).fd ≠ firstFd := not_not.2 hfd
    by_cases hl : ((msg x).frameLen : ℤ) > remainingLen
    · rw [pickUp_tooLarge rest hgo hnp h0 hfd hl]
      refine ⟨q, ?_, h.holds⟩
      simp only [peekLoop, if_neg hgo', hload, Option.bind_eq_bind, Option.bind_some, if_neg hp, if_neg h0,
        if_neg hfd', if_pos hl]
      simp [values]
    · obtain ⟨q', hrun, hholds⟩ := hpick firstFd
      rw [pickUp_fits rest hgo hnp h0 hfd hl]
      refine ⟨q', ?_, hholds⟩
      simp only [peekLoop, if_neg hgo', hload, Option.bind_eq_bind, Option.bind_some, if_neg hp, if_neg h0,
        if_neg hfd', if_neg hl, hchild, hrel]
      exact hrun

end Refinement

section Sequence
variable {β : Type} (msg : β → MessageWithFrameLen)

/-- No message is lost or duplicated. -/
theorem pickUp_perm (index : ℕ) (firstFd : Fd) (remainingLen : ℤ) (q : List β) :
    ((pickUp msg index firstFd remainingLen q).1 ++ (pickUp msg index firstFd remainingLen q).2).Perm q := by
  apply pickUp_induction msg (P := fun _ q r => (r.1 ++ r.2).Perm q)
  · exact fun _ q => .refl q
  · exact fun _ x q _ => .refl (x :: q)
  · exact fun _ x _ _ _ _ h => h.cons x
  · exact fun _ x _ _ _ _ _ h => List.perm_middle.trans (h.cons x)

theorem pickUp_length_le (index : ℕ) (firstFd : Fd) (remainingLen : ℤ) (q : List β) :
    (pickUp msg index firstFd remainingLen q).1.length ≤ messagesBatchSize - index := by
  induction q generalizing index firstFd remainingLen with
  | nil => exact Nat.zero_le _
  | cons x q ih =>
    by_cases h : index < messagesBatchSize ∧ remainingLen > 0
    swap
    · rw [pickUp_full q h]
      exact Nat.zero_le _
    have hpicked : ∀ fd : Fd,
        (x :: (pickUp msg (index + 1) fd (remainingLen - (msg x).frameLen) q).1).length ≤ messagesBatchSize - index := by
      intro fd
      have hrest := ih (index + 1) fd (remainingLen - (msg x).frameLen)
      have hlt := h.1
      rw [List.length_cons]
      omega
    cases hp : isPoison msg x with
    | true =>
      rw [pickUp_poison q h hp, List.length_singleton]
      have hlt := h.1
      omega
    | false =>
      by_cases h0 : firstFd = 0
      · rw [pickUp_first q h hp h0]
        exact hpicked _
      by_cases hfd : (msg x).fd = firstFd
      swap
      · rw [pickUp_other q h hp h0 hfd]
        exact ih index firstFd remainingLen
      by_cases hl : ((msg x).frameLen : ℤ) > remainingLen
      · rw [pickUp_tooLarge q h hp h0 hfd hl]
        exact Nat.zero_le _
      · rw [pickUp_fits q h hp h0 hfd hl]
        exact hpicked _

/-- All messages are of one descriptor, apart from a poison pill at the end. -/
def OneFd (fd : Fd) (batch : List β) : Prop :=
  ∃ same pill, batch = same ++ pill ∧ pill.length ≤ 1 ∧ (∀ x ∈ same, (msg x).fd = fd) ∧
    ∀ x ∈ pill, (msg x).fd = poisonFd

theorem pickUp_oneFd (index : ℕ) {firstFd : Fd} (h0 : firstFd ≠ 0) (remainingLen : ℤ) (q : List β) :
    OneFd msg firstFd (pickUp msg index firstFd remainingLen q).1 := by
  refine pickUp_induction msg (P := fun f _ r => f ≠ 0 → OneFd msg f r.1) ?_ ?_ ?_ ?_ index firstFd
    remainingLen q h0
  · exact fun _ _ _ => ⟨[], [], rfl, Nat.zero_le 1, by simp, by simp⟩
  · intro f x q hp _
    refine ⟨[], [x], rfl, le_rfl, by simp, fun y hy => ?_⟩
    exact List.mem_singleton.1 hy ▸ isPoison_iff.1 hp
  · intro f x q r hp hf ih hne
    obtain rfl : (msg x).fd = f := hf.resolve_left hne
    obtain ⟨same, pill, hr, hlen, hsame, hpill⟩ := ih hne
    refine ⟨x :: same, pill, by rw [hr, List.cons_append], hlen, fun y hy => ?_, hpill⟩
    rcases List.mem_cons.1 hy with rfl | hy
    · rfl
    · exact hsame y hy
  · exact fun _ _ _ _ _ _ _ ih => ih

/-- No message of the descriptor that is left behind stood before a taken one. -/
def NoOvertaking (fd : Fd) (q : List β) (r : List β × List β) : Prop :=
  ∀ a b, [a, b].Sublist q → (msg a).fd = fd → a ∈ r.2 → b ∉ r.1

variable {msg}

theorem noOvertaking_pick {f : Fd} {x : β} {q : List β} {r : List β × List β} (hn : (x :: q).Nodup)
    (hsub : r.2.Sublist q) (h : NoOvertaking msg f q r) : NoOvertaking msg f (x :: q) (x :: r.1, r.2) := by
  obtain ⟨hx, -⟩ := List.nodup_cons.1 hn
  intro a b hab hf ha hb
  have hne : a ≠ x := ne_of_mem_of_not_mem (hsub.subset ha) hx
  have habq : [a, b].Sublist q := hab.of_cons_of_ne hne
  rcases List.mem_cons.1 hb with rfl | hb
  · exact hx (habq.subset (by simp))
  · exact h a b habq hf ha hb

theorem pickUp_noOvertaking (index : ℕ) {firstFd : Fd} (h0 : firstFd ≠ 0) (remainingLen : ℤ) {q : List β}
    (hn : q.Nodup) : NoOvertaking msg firstFd q (pickUp msg index firstFd remainingLen q) := by
  refine (pickUp_induction msg (P := fun f q r => r.2.Sublist q ∧
    (f ≠ 0 → q.Nodup → NoOvertaking msg f q r)) ?_ ?_ ?_ ?_ index firstFd remainingLen q).2 h0 hn
  · exact fun _ q => ⟨.refl q, fun _ _ _ _ _ _ _ => List.not_mem_nil⟩
  · intro f x q hp
    refine ⟨(List.Sublist.refl q).cons x, fun _ hn => ?_⟩
    exact @noOvertaking_pick β msg f x q ([], q) hn (.refl q) fun _ _ _ _ _ => List.not_mem_nil
  · intro f x q r hp hf ih
    refine ⟨ih.1.cons x, fun hne hn => ?_⟩
    obtain rfl : (msg x).fd = f := hf.resolve_left hne
    exact noOvertaking_pick hn ih.1 (ih.2 hne (List.nodup_cons.1 hn).2)
  · intro f x q r hp hne hfd ih
    refine ⟨ih.1.cons_cons x, fun _ hn a b hab hf ha => ?_⟩
    have hax : a ≠ x := fun he => hfd (he ▸ hf)
    exact ih.2 hne (List.nodup_cons.1 hn).2 a b (hab.of_cons_of_ne hax) hf (List.mem_of_ne_of_mem hax ha)

end Sequence

variable {msg : α → MessageWithFrameLen} {q : Linked α} {nodes : List (ℕ × α)} {bufferSize : ℕ}

theorem tsDequeueMultipleMessagesForSameFd_holds (h : Holds q nodes) (hne : nodes ≠ []) :
    ∃ q', tsDequeueMultipleMessagesForSameFd msg q bufferSize =
        some (q', values (WriterThread.tsDequeueMultipleMessagesForSameFd (nodeMsg msg) nodes bufferSize).1) ∧
      Holds q' (WriterThread.tsDequeueMultipleMessagesForSameFd (nodeMsg msg) nodes bufferSize).2 := by
  have hs : q.size ≠ 0 := fun hs => hne (h.size_eq_zero.1 hs)
  obtain ⟨q', hrun, hholds⟩ := @peekLoop_scanned α msg q [] nodes none q.first 0 q.heap.length 0 bufferSize []
    (Walk.start h) h.length_le
  exact ⟨q', by rw [tsDequeueMultipleMessagesForSameFd, if_neg hs]; exact hrun, hholds⟩

/-- The first message is taken and chooses the descriptor, or it is a poison pill and all there is. -/
theorem pickUp_head {β : Type} {msg : β → MessageWithFrameLen} {x : β} (q : List β) {bufferSize : ℕ}
    (hb : 0 < bufferSize) (hx : (msg x).fd ≠ 0) (hn : (x :: q).Nodup) :
    (pickUp msg 0 0 bufferSize (x :: q)).1 ≠ [] ∧
    OneFd msg (msg x).fd (pickUp msg 0 0 bufferSize (x :: q)).1 ∧
    NoOvertaking msg (msg x).fd (x :: q) (pickUp msg 0 0 bufferSize (x :: q)) := by
  have hgo : 0 < messagesBatchSize ∧ (bufferSize : ℤ) > 0 := ⟨by decide, by omega⟩
  cases hp : isPoison msg x with
  | true =>
    rw [pickUp_poison q hgo hp]
    refine ⟨by simp, ⟨[x], [], rfl, Nat.zero_le 1, by simp, by simp⟩, ?_⟩
    exact @noOvertaking_pick β msg (msg x).fd x q ([], q) hn (.refl q) fun _ _ _ _ _ => List.not_mem_nil
  | false =>
    rw [pickUp_first q hgo hp rfl]
    obtain ⟨same, pill, hr, hlen, hsame, hpill⟩ := pickUp_oneFd msg (0 + 1) hx (bufferSize - (msg x).frameLen) q
    refine ⟨by simp, ⟨x :: same, pill, by rw [hr, List.cons_append], hlen, fun y hy => ?_, hpill⟩, ?_⟩
    · rcases List.mem_cons.1 hy with rfl | hy
      · rfl
      · exact hsame y hy
    · exact noOvertaking_pick hn (pickUp_sublist msg _ _ _ q).2
        (pickUp_noOvertaking _ hx _ (List.nodup_cons.1 hn).2)

/-- Batch extraction loses and reorders nothing. -/
theorem batch_extraction_faithful {head : ℕ × α} {tail : List (ℕ × α)} (h : Holds q (head :: tail))
    (hfd : ∀ n ∈ head :: tail, (msg n.2).fd ≠ 0) (hb : 0 < bufferSize) :
    ∃ q' batch rest, tsDequeueMultipleMessagesForSameFd msg q bufferSize = some (q', values batch) ∧
      batch ≠ [] ∧ (batch ++ rest).Perm (head :: tail) ∧ batch.Sublist (head :: tail) ∧
      rest.Sublist (head :: tail) ∧ batch.length ≤ messagesBatchSize ∧
      OneFd (nodeMsg msg) (msg head.2).fd batch ∧
      NoOvertaking (nodeMsg msg) (msg head.2).fd (head :: tail) (batch, rest) ∧
      Chain q'.heap q'.first rest none ∧ q'.last = lastAddress rest ∧ q'.size = rest.length := by
  have hnodup : (head :: tail).Nodup := h.distinct.of_map Prod.fst
  obtain ⟨q', hrun, hholds⟩ := @tsDequeueMultipleMessagesForSameFd_holds α msg q _ bufferSize h (List.cons_ne_nil _ _)
  obtain ⟨hne, hone, hover⟩ := @pickUp_head _ (nodeMsg msg) head tail bufferSize hb (hfd head List.mem_cons_self) hnodup
  obtain ⟨hbatch, hrest⟩ := pickUp_sublist (nodeMsg msg) 0 0 bufferSize (head :: tail)
  exact ⟨q', _, _, hrun, hne, pickUp_perm _ _ _ _ _, hbatch, hrest, pickUp_length_le _ _ _ _ _, hone, hover,
    hholds.chain, hholds.last, hholds.size⟩

/-- Two messages of one descriptor around a message of another, and a poison pill behind them. -/
def sampleQueue : Linked MessageWithFrameLen :=
  ⟨[some ⟨⟨5, [65], 2⟩, some 1⟩, some ⟨⟨6, [66], 2⟩, some 2⟩, some ⟨⟨5, [67], 2⟩, some 3⟩,
    some ⟨⟨poisonFd, [], 0⟩, none⟩], some 0, some 3, 4⟩

def sampleNodes : List (ℕ × MessageWithFrameLen) :=
  [(0, ⟨5, [65], 2⟩), (1, ⟨6, [66], 2⟩), (2, ⟨5, [67], 2⟩), (3, ⟨poisonFd, [], 0⟩)]

theorem holds_sampleQueue : Holds sampleQueue sampleNodes :=
  ⟨.cons rfl (.cons rfl (.cons rfl (.cons rfl (.nil none)))), by decide, by decide, by decide⟩

theorem batch_extraction_faithful_sample :
    ∃ q' batch rest, tsDequeueMultipleMessagesForSameFd id sampleQueue 10000 = some (q', values batch) ∧
      batch ≠ [] ∧ (batch ++ rest).Perm sampleNodes ∧ q'.last = lastAddress rest ∧ q'.size = rest.length := by
  obtain ⟨q', batch, rest, hrun, hne, hperm, -, -, -, -, -, -, hlast, hsize⟩ :=
    @batch_extraction_faithful _ id sampleQueue 10000 (0, ⟨5, [65], 2⟩)
      [(1, ⟨6, [66], 2⟩), (2, ⟨5, [67], 2⟩), (3, ⟨poisonFd, [], 0⟩)] holds_sampleQueue (by decide) (by decide)
  exact ⟨q', batch, rest, hrun, hne, hperm, hlast, hsize⟩

end StompBroker.BatchExtraction
