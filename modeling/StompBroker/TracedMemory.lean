import Mathlib.Data.List.TakeWhile
import Mathlib.Tactic

/-! Computations on one block of memory cells that record what they touch. A pointer is an offset
into the block, a null pointer is `none`, and an access outside the block ends the computation. The
record keeps the attempt, so that a run which fails still shows where it went. -/
namespace StompBroker.TracedMemory

inductive Access
  | read (first count : ℕ)
  | request (first len : ℕ)
  | write (pos : ℕ)
  | null
  deriving DecidableEq, Repr

/-- Result, memory afterwards and accesses in order; no result after a fault. -/
def Traced (β α : Type) := List β → Option α × List β × List Access

variable {β α γ : Type}

def Traced.bind (x : Traced β α) (f : α → Traced β γ) : Traced β γ := fun m =>
  match x m with
  | (none, m', trace) => (none, m', trace)
  | (some a, m', trace) => ((f a m').1, (f a m').2.1, trace ++ (f a m').2.2)

instance : Monad (Traced β) where
  pure a := fun m => (some a, m, [])
  bind := Traced.bind

/-- End the computation with an access that the block does not answer. -/
def fault (access : Access) : Traced β α := fun m => (none, m, [access])

def load : Option ℕ → Traced β β
  | none => fault .null
  | some p => fun m => (m[p]?, m, [.read p 1])

def store : Option ℕ → β → Traced β Unit
  | none, _ => fault .null
  | some p, b => fun m => (if p < m.length then some () else none, m.set p b, [.write p])

def strchr [DecidableEq β] (nul c : β) : Option ℕ → Traced β (Option ℕ)
  | none => fault .null
  | some p => fun m =>
      match (m.drop p).findIdx? (fun b => b == c || b == nul) with
      | none => (none, m, [.read p (m.length - p + 1)])
      | some i => (some (if m[p + i]? = some c then some (p + i) else none), m, [.read p (i + 1)])

/-- The search for a cell among the next `len` ones; it ends at the first hit. -/
def memchr [DecidableEq β] (c : β) (len : ℕ) : Option ℕ → Traced β (Option ℕ)
  | none => fault .null
  | some p => fun m =>
      match ((m.drop p).take len).findIdx? (· == c) with
      | some i => (some (some (p + i)), m, [.request p len, .read p (i + 1)])
      | none =>
          if len ≤ m.length - p then (some none, m, [.request p len, .read p len])
          else (none, m, [.request p len, .read p (m.length - p + 1)])

/-- Whether cells begin with a constant text; it takes cells up to the first difference to say so. -/
def compareCells [DecidableEq β] : List β → List β → Option Bool
  | [], _ => some true
  | _ :: _, [] => none
  | w :: ws, b :: bs => if b = w then compareCells ws bs else some false

/-- The comparison with a constant text may read as many cells as the text has, wherever they
differ, and the record has them all. The result rests on the cells up to the first difference. -/
def memcmp [DecidableEq β] (w : List β) : Option ℕ → Traced β Bool
  | none => fault .null
  | some p => fun m => (compareCells w (m.drop p), m, [.read p w.length])

/-- The cells from a pointer up to the terminator, as a copy reads them. -/
def cells [DecidableEq β] (nul : β) : Option ℕ → Traced β (List β)
  | none => fault .null
  | some p => fun m =>
      if nul ∈ m.drop p then
        (some ((m.drop p).takeWhile (· != nul)), m, [.read p (((m.drop p).takeWhile (· != nul)).length + 1)])
      else (none, m, [.read p (m.length - p + 1)])

def result (x : Traced β α) (m : List β) : Option α := (x m).1

def Stays (I : Access → Prop) (x : Traced β α) (m : List β) : Prop := ∀ access ∈ (x m).2.2, I access

/-- The run returns a value, and every access keeps the condition. -/
def Runs (I : Access → Prop) (x : Traced β α) (m : List β) (a : α) (m' : List β) : Prop :=
  ∃ trace, x m = (some a, m', trace) ∧ ∀ access ∈ trace, I access

section Rules
variable {I J : Access → Prop} {x : Traced β α} {f : α → Traced β γ} {m m' m'' : List β} {a : α} {b : γ}

theorem Runs.result_eq (h : Runs I x m a m') : result x m = some a := by
  obtain ⟨trace, hx, -⟩ := h
  rw [result, hx]

theorem Runs.stays (h : Runs I x m a m') : Stays I x m := by
  obtain ⟨trace, hx, ht⟩ := h
  rw [Stays, hx]
  exact ht

theorem runs_of_result (h : result x m = some a) : ∃ m', Runs (fun _ => True) x m a m' := by
  refine ⟨(x m).2.1, (x m).2.2, ?_, fun _ _ => trivial⟩
  rw [← h]
  rfl

theorem pure_result (a : α) (m : List β) : result (pure a) m = some a := rfl

theorem Runs.pure (a : α) (m : List β) : Runs I (pure a) m a m :=
  ⟨[], rfl, fun _ h => absurd h List.not_mem_nil⟩

theorem bind_eq (h : Runs I x m a m') :
    ∃ trace, (x >>= f) m = ((f a m').1, (f a m').2.1, trace ++ (f a m').2.2) ∧ ∀ access ∈ trace, I access := by
  obtain ⟨trace, hx, ht⟩ := h
  refine ⟨trace, ?_, ht⟩
  change Traced.bind x f m = _
  rw [Traced.bind, hx]

theorem Runs.bind (hx : Runs I x m a m') (hf : Runs I (f a) m' b m'') : Runs I (x >>= f) m b m'' := by
  obtain ⟨trace, he, ht⟩ := @bind_eq β α γ I x f m m' a hx
  obtain ⟨rest, hfa, hrest⟩ := hf
  refine ⟨trace ++ rest, by rw [he, hfa], ?_⟩
  intro access h
  rcases List.mem_append.1 h with h | h
  · exact ht access h
  · exact hrest access h

theorem Runs.bind_result (hx : Runs I x m a m') : result (x >>= f) m = result (f a) m' := by
  obtain ⟨trace, he, -⟩ := @bind_eq β α γ I x f m m' a hx
  rw [result, he]
  rfl

theorem Runs.mono (hx : Runs I x m a m') (h : ∀ access, I access → J access) : Runs J x m a m' := by
  obtain ⟨trace, he, ht⟩ := hx
  exact ⟨trace, he, fun access hin => h access (ht access hin)⟩

theorem Runs.of_stays (hx : Runs J x m a m') (h : Stays I x m) : Runs I x m a m' := by
  obtain ⟨trace, he, -⟩ := hx
  rw [Stays, he] at h
  exact ⟨trace, he, h⟩

theorem Runs.stays_bind_iff (hx : Runs J x m a m') : Stays I (x >>= f) m ↔ Stays I x m ∧ Stays I (f a) m' := by
  obtain ⟨trace, hx, -⟩ := hx
  have he : (x >>= f) m = ((f a m').1, (f a m').2.1, trace ++ (f a m').2.2) := by
    change Traced.bind x f m = _
    rw [Traced.bind, hx]
  simp only [Stays, he, hx, List.mem_append, or_imp, forall_and]

theorem Runs.not_stays_bind (hx : Runs J x m a m') (hf : ¬ Stays I (f a) m') : ¬ Stays I (x >>= f) m := by
  obtain ⟨trace, he, -⟩ := @bind_eq β α γ J x f m m' a hx
  intro hs
  refine hf fun access h => hs access ?_
  rw [he]
  exact List.mem_append_right trace h

theorem not_stays_bind (hx : ¬ Stays I x m) : ¬ Stays I (x >>= f) m := by
  intro hs
  refine hx fun access h => hs access ?_
  change access ∈ (Traced.bind x f m).2.2
  rw [Traced.bind]
  rcases hr : x m with ⟨r, m', trace⟩
  rw [hr] at h
  cases r with
  | none => exact h
  | some a => exact List.mem_append_left _ h

theorem bind_result_none (hx : result x m = none) : result (x >>= f) m = none := by
  change (Traced.bind x f m).1 = none
  rw [Traced.bind]
  rcases hr : x m with ⟨r, m', trace⟩
  rw [result, hr] at hx
  obtain rfl : r = none := hx
  rfl

end Rules

/-- A terminated text stands at an offset, with more cells behind it. -/
def TextAt (nul : β) (m : List β) (p : ℕ) (text past : List β) : Prop :=
  m.drop p = text ++ nul :: past ∧ nul ∉ text

section Operations
variable {I : Access → Prop} {nul c : β} {m text past : List β} {p : ℕ}

theorem TextAt.length (h : TextAt nul m p text past) : m.length = p + text.length + 1 + past.length := by
  have hl := congrArg List.length h.1
  simp only [List.length_drop, List.length_append, List.length_cons] at hl
  omega

theorem TextAt.drop (h : TextAt nul m p text past) {i : ℕ} (hi : i ≤ text.length) :
    TextAt nul m (p + i) (text.drop i) past := by
  refine ⟨?_, fun hn => h.2 (List.mem_of_mem_drop hn)⟩
  rw [← List.drop_drop, h.1, List.drop_append_of_le_length hi]

theorem TextAt.cut (h : TextAt nul m p text past) {i : ℕ} (hi : i < text.length) :
    TextAt nul (m.set (p + i) nul) p (text.take i) (text.drop (i + 1) ++ nul :: past) := by
  refine ⟨?_, fun hn => h.2 (List.mem_of_mem_take hn)⟩
  have hlt : ¬ p + i < p := by omega
  rw [List.drop_set, if_neg hlt, h.1, Nat.add_sub_cancel_left, List.set_append_left i nul hi,
    List.set_eq_take_append_cons_drop, if_pos hi, List.append_assoc, List.cons_append]

theorem TextAt.behind {rest : List β} (h : TextAt nul m p text (rest ++ nul :: past)) (hr : nul ∉ rest) :
    TextAt nul m (p + text.length + 1) rest past := by
  refine ⟨?_, hr⟩
  rw [Nat.add_assoc, ← List.drop_drop, h.1, ← List.drop_drop, List.drop_left, List.drop_one, List.tail_cons]

theorem load_runs {b : β} (hb : m[p]? = some b) (hI : I (.read p 1)) : Runs I (load (some p)) m b m := by
  refine ⟨[.read p 1], ?_, by simpa using hI⟩
  simp only [load, hb]

theorem store_runs (b : β) (hp : p < m.length) (hI : I (.write p)) : Runs I (store (some p) b) m () (m.set p b) := by
  refine ⟨[.write p], ?_, by simpa using hI⟩
  simp only [store, if_pos hp]

theorem findIdx?_append_cons {q : β → Bool} {front back : List β} (hf : ∀ b ∈ front, q b = false) (hc : q c = true) :
    (front ++ c :: back).findIdx? q = some front.length := by
  rw [List.findIdx?_append, List.findIdx?_eq_none_iff.2 hf, Option.none_or, List.findIdx?_cons, if_pos hc]
  simp

variable [DecidableEq β]

theorem strchr_runs (h : TextAt nul m p text past) (hc : c ≠ nul)
    (hI : ∀ count ≤ text.length + 1, I (.read p count)) :
    Runs I (strchr nul c (some p)) m ((text.findIdx? (· == c)).map (p + ·)) m := by
  have hget : ∀ i, m[p + i]? = (text ++ nul :: past)[i]? := fun i => by rw [← h.1, List.getElem?_drop]
  by_cases hmem : c ∈ text
  · obtain ⟨front, back, rfl, hfront⟩ := List.eq_append_cons_of_mem hmem
    have hne : ∀ b ∈ front, b ≠ c := fun b hb => ne_of_mem_of_not_mem hb hfront
    have hstop : ∀ b ∈ front, (b == c || b == nul) = false := by
      intro b hb
      have hnul : b ≠ nul := ne_of_mem_of_not_mem (List.mem_append_left _ hb) h.2
      simp [hne b hb, hnul]
    have hidx : (front ++ c :: back).findIdx? (· == c) = some front.length :=
      findIdx?_append_cons (fun b hb => beq_false_of_ne (hne b hb)) (beq_self_eq_true c)
    have hall : (m.drop p).findIdx? (fun b => b == c || b == nul) = some front.length := by
      rw [h.1, List.append_assoc, List.cons_append]
      exact findIdx?_append_cons hstop (by simp)
    refine ⟨[.read p (front.length + 1)], ?_, ?_⟩
    · have hhit : m[p + front.length]? = some c := by rw [hget]; simp
      simp [strchr, hall, hidx, hhit]
    · simpa using hI (front.length + 1) (by simp)
  · have hstop : ∀ b ∈ text, (b == c || b == nul) = false := by
      intro b hb
      have hnul : b ≠ nul := ne_of_mem_of_not_mem hb h.2
      have hne : b ≠ c := ne_of_mem_of_not_mem hb hmem
      simp [hne, hnul]
    have hidx : text.findIdx? (· == c) = none := by
      rw [List.findIdx?_eq_none_iff]
      exact fun b hb => beq_false_of_ne (ne_of_mem_of_not_mem hb hmem)
    have hall : (m.drop p).findIdx? (fun b => b == c || b == nul) = some text.length := by
      rw [h.1]
      exact findIdx?_append_cons hstop (by simp)
    refine ⟨[.read p (text.length + 1)], ?_, ?_⟩
    · have hhit : m[p + text.length]? = some nul := by rw [hget]; simp
      simp [strchr, hall, hidx, hhit, hc.symm]
    · simpa using hI (text.length + 1) le_rfl

theorem cells_runs (h : TextAt nul m p text past) (hI : I (.read p (text.length + 1))) :
    Runs I (cells nul (some p)) m text m := by
  have htake : (text ++ nul :: past).takeWhile (· != nul) = text := by
    rw [List.takeWhile_append_of_pos fun b hb => bne_iff_ne.2 (ne_of_mem_of_not_mem hb h.2)]
    simp
  refine ⟨[.read p (text.length + 1)], ?_, by simpa using hI⟩
  simp [cells, h.1, htake]

theorem memchr_runs {len : ℕ} (hlen : p + len ≤ m.length) (hq : I (.request p len))
    (hI : ∀ count ≤ len, I (.read p count)) :
    Runs I (memchr c len (some p)) m ((((m.drop p).take len).findIdx? (· == c)).map (p + ·)) m := by
  cases hi : ((m.drop p).take len).findIdx? (· == c) with
  | none =>
    refine ⟨[.request p len, .read p len], ?_, ?_⟩
    · have hle : len ≤ m.length - p := by omega
      simp [memchr, hi, hle]
    · simpa using ⟨hq, hI len le_rfl⟩
  | some i =>
    have hlt : i < len := by
      have hi' := (List.findIdx?_eq_some_iff_getElem.1 hi).1
      rw [List.length_take] at hi'
      omega
    refine ⟨[.request p len, .read p (i + 1)], ?_, ?_⟩
    · simp [memchr, hi]
    · simpa using ⟨hq, hI (i + 1) hlt⟩

theorem memchr_not_stays {len : ℕ} (hq : ¬ I (.request p len)) : ¬ Stays I (memchr c len (some p)) m := by
  intro hs
  refine hq (hs _ ?_)
  simp only [memchr]
  split
  · simp
  · split_ifs <;> simp

theorem memchr_beyond {len i : ℕ} (hlen : m.length ≤ p + len) (hi : (m.drop p).findIdx? (· == c) = some i) :
    Runs (fun _ => True) (memchr c len (some p)) m (some (p + i)) m := by
  have htake : (m.drop p).take len = m.drop p := List.take_of_length_le (by rw [List.length_drop]; omega)
  exact ⟨[.request p len, .read p (i + 1)], by simp [memchr, htake, hi], fun _ _ => trivial⟩

theorem memchr_beyond_none {len : ℕ} (hp : p ≤ m.length) (hlen : m.length < p + len)
    (hi : (m.drop p).findIdx? (· == c) = none) : result (memchr c len (some p)) m = none := by
  have htake : (m.drop p).take len = m.drop p := List.take_of_length_le (by rw [List.length_drop]; omega)
  have hle : ¬ len ≤ m.length - p := by omega
  simp [result, memchr, htake, hi, hle]

theorem compareCells_append (w : List β) (ht : nul ∉ text) (hw : nul ∉ w) :
    compareCells w (text ++ nul :: past) = some (w.isPrefixOf text) := by
  induction w generalizing text with
  | nil => rfl
  | cons b w ih =>
    obtain ⟨hb, hw⟩ := not_or.1 fun h => hw (List.mem_cons.2 h)
    cases text with
    | nil => exact if_neg hb
    | cons t text =>
      rw [List.cons_append, compareCells, List.isPrefixOf_cons_cons]
      by_cases he : t = b
      · rw [if_pos he, ih (fun h => ht (List.mem_cons_of_mem t h)) hw, he, beq_self_eq_true, Bool.true_and]
      · rw [if_neg he, beq_false_of_ne (Ne.symm he), Bool.false_and]

theorem memcmp_runs (w : List β) (h : TextAt nul m p text past) (hw : nul ∉ w) (hI : I (.read p w.length)) :
    Runs I (memcmp w (some p)) m (w.isPrefixOf text) m := by
  refine ⟨[.read p w.length], ?_, by simpa using hI⟩
  simp only [memcmp, h.1, compareCells_append w h.2 hw]

theorem memcmp_stays_iff (w : List β) : Stays I (memcmp w (some p)) m ↔ I (.read p w.length) := by
  simp [Stays, memcmp]

end Operations

end StompBroker.TracedMemory
