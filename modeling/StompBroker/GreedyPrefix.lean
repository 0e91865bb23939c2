import Mathlib.Tactic
import Mathlib.Order.Bounds.Basic

/-! Greedy choice of a prefix: items are taken from the front while a slot is free and room is
left, the first few without asking for their weight and the others only if they fit. -/
namespace StompBroker.GreedyPrefix
variable {α : Type*} {weight : α → ℕ}

def total (weight : α → ℕ) (c : List α) : ℕ := (c.map weight).sum

@[simp] theorem total_nil : total weight [] = 0 := rfl

@[simp] theorem total_cons (x : α) (c : List α) :
    total weight (x :: c) = weight x + total weight c := by
  simp [total]

theorem total_take_le (c : List α) {j k : ℕ} (h : j ≤ k) :
    total weight (c.take j) ≤ total weight (c.take k) := by
  induction c generalizing j k with
  | nil => simp
  | cons x c ih =>
    cases j with
    | zero => simp
    | succ j =>
      cases k with
      | zero => omega
      | succ k =>
        have := ih (show j ≤ k by omega)
        simp only [List.take_succ_cons, total_cons]
        omega

/-- The first `k` items can be taken: slots, room and, behind the `free` ones, fit. -/
structure Admitted (weight : α → ℕ) (slots : ℕ) (room : ℤ) (free : ℕ) (c : List α) (k : ℕ) :
    Prop where
  le_slots : k ≤ slots
  le_length : k ≤ c.length
  lt_room : ∀ j < k, (total weight (c.take j) : ℤ) < room
  fit : ∀ j < k, free ≤ j → (total weight (c.take (j + 1)) : ℤ) ≤ room

variable {slots free k : ℕ} {room : ℤ} {x : α} {c : List α}

theorem Admitted.zero : Admitted weight slots room free c 0 :=
  ⟨Nat.zero_le _, Nat.zero_le _, by omega, by omega⟩

theorem Admitted.mono {j : ℕ} (h : Admitted weight slots room free c k) (hj : j ≤ k) :
    Admitted weight slots room free c j :=
  ⟨hj.trans h.le_slots, hj.trans h.le_length, fun i hi => h.lt_room i (hi.trans_le hj),
    fun i hi => h.fit i (hi.trans_le hj)⟩

theorem admitted_succ_cons : Admitted weight slots room free (x :: c) (k + 1) ↔
    (0 < slots ∧ 0 < room ∧ (free = 0 → (weight x : ℤ) ≤ room)) ∧
      Admitted weight (slots - 1) (room - weight x) (free - 1) c k := by
  constructor
  · intro h
    have h1 := h.le_slots
    have h2 := h.le_length
    simp only [List.length_cons] at h2
    refine ⟨⟨by omega, by simpa using h.lt_room 0 (by omega), fun hf => ?_⟩, ⟨by omega, by omega, ?_, ?_⟩⟩
    · simpa using h.fit 0 (by omega) (by omega)
    · intro j hj
      have := h.lt_room (j + 1) (by omega)
      simp only [List.take_succ_cons, total_cons] at this
      push_cast at this
      omega
    · intro j hj hf
      have := h.fit (j + 1) (by omega) (by omega)
      simp only [List.take_succ_cons, total_cons] at this ⊢
      push_cast at this
      omega
  · rintro ⟨⟨hs, hr, hx⟩, h⟩
    have h1 := h.le_slots
    have h2 := h.le_length
    refine ⟨by omega, by simp only [List.length_cons]; omega, ?_, ?_⟩
    · intro j hj
      cases j with
      | zero => simpa using hr
      | succ j =>
        have := h.lt_room j (by omega)
        simp only [List.take_succ_cons, total_cons]
        push_cast
        omega
    · intro j hj hf
      cases j with
      | zero => simpa using hx (by omega)
      | succ j =>
        have := h.fit j (by omega) (by omega)
        simp only [List.take_succ_cons, total_cons] at this ⊢
        push_cast
        omega

theorem isGreatest_cons (hs : 0 < slots) (hr : 0 < room) (hx : free = 0 → (weight x : ℤ) ≤ room)
    (h : IsGreatest {k | Admitted weight (slots - 1) (room - weight x) (free - 1) c k} k) :
    IsGreatest {k | Admitted weight slots room free (x :: c) k} (k + 1) := by
  refine ⟨admitted_succ_cons.mpr ⟨⟨hs, hr, hx⟩, h.1⟩, ?_⟩
  intro m hm
  cases m with
  | zero => omega
  | succ m =>
    have := h.2 (admitted_succ_cons.mp hm).2
    omega

theorem isGreatest_zero
    (h : c = [] ∨ slots = 0 ∨ room ≤ 0 ∨ ∃ x d, c = x :: d ∧ free = 0 ∧ room < weight x) :
    IsGreatest {k | Admitted weight slots room free c k} 0 := by
  refine ⟨Admitted.zero, ?_⟩
  intro m hm
  cases m with
  | zero => omega
  | succ m =>
    cases c with
    | nil => exact absurd hm.le_length (by simp)
    | cons x d =>
      obtain ⟨⟨hs, hr, hx⟩, -⟩ := admitted_succ_cons.mp hm
      rcases h with h | h | h | ⟨y, e, he, hf, hy⟩
      · simp at h
      · omega
      · omega
      · cases he
        have := hx hf
        omega

/-- Another weight stays within a bound on every admitted prefix as soon as it does on the
greatest one. -/
theorem forall_admitted_total_le_iff {size : α → ℕ} {bound : ℕ}
    (h : IsGreatest {k | Admitted weight slots room free c k} k) :
    (∀ j, Admitted weight slots room free c j → total size (c.take j) ≤ bound) ↔
      total size (c.take k) ≤ bound := by
  refine ⟨fun hall => hall k h.1, fun hk j hj => ?_⟩
  exact (total_take_le c (h.2 hj)).trans hk

end StompBroker.GreedyPrefix
