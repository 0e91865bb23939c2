import Mathlib.Tactic
import Mathlib.Data.Nat.Bitwise

/-! Flag bits packed above a number in a machine word. A number below `2^k` never meets
a flag whose low `k` bits are clear, so setting, testing and masking flags commute. -/
namespace StompBroker.BitFlags
variable {w : ℕ}

theorem or_and_of_apart {x f m : BitVec w} (h : f &&& m = 0#w) : (x ||| f) &&& m = x &&& m := by
  rw [BitVec.and_or_distrib_right, h, BitVec.or_zero]

theorem or_and_self (x f : BitVec w) : (x ||| f) &&& f = f := by
  ext i hi
  simp only [BitVec.getElem_and, BitVec.getElem_or]
  cases x[i] <;> cases f[i] <;> rfl

theorem toNat_and_lowMask {k : ℕ} (hk : k ≤ w) (x : BitVec w) :
    (x &&& BitVec.ofNat w (2 ^ k - 1)).toNat = x.toNat % 2 ^ k := by
  have hlt : 2 ^ k - 1 < 2 ^ w := by
    have := Nat.pow_le_pow_right (show 0 < 2 by omega) hk
    have := Nat.two_pow_pos k
    omega
  rw [BitVec.toNat_and, BitVec.toNat_ofNat, Nat.mod_eq_of_lt hlt, Nat.and_two_pow_sub_one_eq_mod]

/-- A number below `2^k` has none of the bits of a flag word that is a multiple of `2^k`. -/
theorem and_eq_zero_of_lt {k : ℕ} {x f : BitVec w} (hx : x.toNat < 2 ^ k)
    (hf : 2 ^ k ∣ f.toNat) : x &&& f = 0#w := by
  apply BitVec.eq_of_toNat_eq
  rw [BitVec.toNat_and]
  apply Nat.eq_of_testBit_eq
  intro i
  rw [Nat.testBit_and]
  by_cases hi : i < k
  · have hfi : f.toNat.testBit i = false := by
      obtain ⟨q, hq⟩ := hf
      simp [hq, Nat.testBit_two_pow_mul, Nat.not_le.mpr hi]
    simp [hfi]
  · have hle : 2 ^ k ≤ 2 ^ i := Nat.pow_le_pow_right (by omega) (by omega)
    have hxi : x.toNat.testBit i = false := Nat.testBit_lt_two_pow (by omega)
    simp [hxi]

/-- The number is recovered by masking the flag away. -/
theorem or_and_not_of_apart {x f : BitVec w} (h : x &&& f = 0#w) : (x ||| f) &&& ~~~f = x := by
  have hx : x &&& ~~~f = x := by
    ext i hi
    have hb := congrArg (fun v : BitVec w => v[i]) h
    simp only [BitVec.getElem_and, BitVec.getElem_zero] at hb
    simp only [BitVec.getElem_and, BitVec.getElem_not]
    cases hxi : x[i] <;> cases hfi : f[i] <;> simp_all
  rw [BitVec.and_or_distrib_right, hx, BitVec.and_not_self]
  exact BitVec.or_zero

theorem and_twoPow_ne_zero {j : ℕ} (hj : j < w) (x : BitVec w) :
    (x &&& BitVec.twoPow w j != 0#w) = x.getLsbD j := by
  have hp : BitVec.twoPow w j ≠ 0#w := by
    intro h
    have hbit := congrArg (fun v : BitVec w => v.getLsbD j) h
    simp [hj] at hbit
  rw [BitVec.and_twoPow]
  cases x.getLsbD j <;> simp [hp]

theorem or_injective_of_apart {x y f : BitVec w} (hx : x &&& f = 0#w) (hy : y &&& f = 0#w)
    (h : x ||| f = y ||| f) : x = y := by
  rw [← or_and_not_of_apart hx, h, or_and_not_of_apart hy]

end StompBroker.BitFlags
