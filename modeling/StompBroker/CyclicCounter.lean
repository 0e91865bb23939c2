import Mathlib.Tactic
import Mathlib.Data.List.Rotate

/-! Positions chosen by a counter that wraps at `M`, taken modulo the number of places.
A window of as many picks as there are places visits each once in cyclic order exactly
when the wrap does not fall inside it, or the places divide the range of the counter. -/
namespace StompBroker.CyclicCounter

/-- The positions of `len` picks from a counter value on. -/
def picks (M n start len : ℕ) : List ℕ := (List.range len).map fun k => (start + k) % M % n

@[simp] theorem length_picks (M n start len : ℕ) : (picks M n start len).length = len := by simp [picks]

theorem picks_succ (M n start len : ℕ) :
    picks M n start (len + 1) = picks M n start len ++ [(start + len) % M % n] := by
  simp [picks, List.range_succ]

theorem take_drop_picks {M n start len j m : ℕ} (h : j + m ≤ len) :
    ((picks M n start len).drop j).take m = picks M n ((start + j) % M) m := by
  apply List.ext_getElem
  · simp
    omega
  · intro k hk hk'
    simp only [picks, List.getElem_take, List.getElem_drop, List.getElem_map, List.getElem_range, Nat.mod_add_mod,
      Nat.add_assoc]

theorem picks_eq_rotate {M n a : ℕ} (h : ∀ k < n, (a + k) % M % n = (a + k) % n) :
    picks M n a n = (List.range n).rotate a := by
  apply List.ext_getElem
  · simp
  · intro k hk hk'
    simp only [length_picks] at hk
    simp only [picks, List.getElem_map, List.getElem_range, List.getElem_rotate, List.length_range, h k hk,
      Nat.add_comm k a]

/-- The pick before the wrap and the pick after it are neighbours in no rotation. -/
theorem not_rotated {M n a : ℕ} (ha : a < M) (hw : M < a + n) (hd : ¬ n ∣ M) :
    ¬ (picks M n a n).IsRotated (List.range n) := by
  intro hr
  obtain ⟨r, hr⟩ := hr.symm
  have hget : ∀ k < n, (k + r) % n = (a + k) % M % n := by
    intro k hk
    have := congrArg (fun l : List ℕ => l[k]?) hr
    simpa [picks, List.getElem?_rotate, hk] using this
  have hlast := hget (M - a - 1) (by omega)
  have hfirst := hget (M - a) (by omega)
  rw [show a + (M - a - 1) = M - 1 by omega, Nat.mod_eq_of_lt (show M - 1 < M by omega)] at hlast
  rw [show a + (M - a) = M by omega, Nat.mod_self, Nat.zero_mod] at hfirst
  have hnext : (M - 1 + 1) % n = (M - a - 1 + r + 1) % n := (Nat.ModEq.add_right 1 hlast).symm
  rw [show M - a - 1 + r + 1 = M - a + r by omega, hfirst, Nat.sub_add_cancel (by omega)] at hnext
  exact hd (Nat.dvd_of_mod_eq_zero hnext)

theorem picks_isRotated_iff {M n a : ℕ} (ha : a < M) :
    (picks M n a n).IsRotated (List.range n) ↔ n ∣ M ∨ a + n ≤ M := by
  constructor
  · intro hr
    by_contra hno
    push Not at hno
    exact not_rotated ha hno.2 hno.1 hr
  · rintro (hd | hle)
    · rw [picks_eq_rotate fun k _ => Nat.mod_mod_of_dvd _ hd]
      exact (List.IsRotated.forall _ _)
    · rw [picks_eq_rotate fun k hk => by rw [Nat.mod_eq_of_lt (show a + k < M by omega)]]
      exact (List.IsRotated.forall _ _)

end StompBroker.CyclicCounter
