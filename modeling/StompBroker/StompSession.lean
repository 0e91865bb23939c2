import StompBroker.SessionStorage

/-! The bitmap of connected sessions, one bit for each descriptor in 64-bit words. -/
namespace StompBroker.StompSession
open SessionStorage

/-- The words of `session_connected`; only the first `stompSessionSize` exist. -/
abbrev SessionConnected := ℕ → BitVec 64

def stompSessionSize : ℕ := maxNumberOfConnections / 64

def stompSessionInit : SessionConnected := fun _ => 0

/-- A 32-bit shift, moved to the upper half by a multiplication. -/
def sessionBit (fd : ℕ) : BitVec 64 :=
  let n := fd % 64
  let mask := (1#32 <<< (n % 32)).setWidth 64
  if n ≥ 32 then mask * 0x100000000#64 else mask

def stompSessionIsConnected (sc : SessionConnected) (fd : Fd) : Bool :=
  (sc (fd.toNat / 64) &&& sessionBit fd.toNat) != 0#64

def stompSessionSetConnected (sc : SessionConnected) (fd : Fd) (connected : ℤ) :
    SessionConnected :=
  let i := fd.toNat / 64
  if connected = 0 then
    Function.update sc i (sc i &&& (sessionBit fd.toNat ^^^ BitVec.allOnes 64))
  else Function.update sc i (sc i ||| sessionBit fd.toNat)

/-- Counts the set bits of every word, lower and upper half side by side. -/
def stompSessionConnectedSize (sc : SessionConnected) : ℕ :=
  ((List.range stompSessionSize).map fun i =>
    ((List.range 32).map fun j =>
      (if (1#64 <<< j) &&& sc i != 0#64 then 1 else 0) +
      (if (1#64 <<< j) &&& (sc i / 0x100000000#64) != 0#64 then 1 else 0)).sum).sum

theorem sessionBit_eq (fd : ℕ) : sessionBit fd = BitVec.twoPow 64 (fd % 64) := by
  have key : ∀ n : Fin 64, (if n.val ≥ 32 then (1#32 <<< (n.val % 32)).setWidth 64 * 0x100000000#64
      else (1#32 <<< (n.val % 32)).setWidth 64) = BitVec.twoPow 64 n.val := by decide
  exact key ⟨fd % 64, Nat.mod_lt _ (by omega)⟩

theorem stompSessionIsConnected_eq (sc : SessionConnected) (fd : Fd) :
    stompSessionIsConnected sc fd = (sc (fd.toNat / 64)).getLsbD (fd.toNat % 64) := by
  have hn : fd.toNat % 64 < 64 := Nat.mod_lt _ (by omega)
  rw [stompSessionIsConnected, sessionBit_eq, BitFlags.and_twoPow_ne_zero hn]

theorem stompSessionIsConnected_init (fd : Fd) :
    stompSessionIsConnected stompSessionInit fd = false := by
  simp [stompSessionIsConnected, stompSessionInit]

theorem getLsbD_clear {n m : ℕ} (x : BitVec 64) (hm : m < 64) :
    (x &&& (BitVec.twoPow 64 n ^^^ BitVec.allOnes 64)).getLsbD m = (x.getLsbD m && decide (n ≠ m)) := by
  rw [BitVec.getLsbD_and, BitVec.getLsbD_xor, BitVec.getLsbD_twoPow, BitVec.getLsbD_allOnes]
  by_cases h : n = m <;> simp [h, hm]

theorem getLsbD_set {n m : ℕ} (x : BitVec 64) (hm : m < 64) :
    (x ||| BitVec.twoPow 64 n).getLsbD m = (x.getLsbD m || decide (n = m)) := by
  rw [BitVec.getLsbD_or, BitVec.getLsbD_twoPow]
  by_cases h : n = m <;> simp [h, hm]

/-- Setting or clearing one descriptor answers for that descriptor and no other. -/
theorem stompSessionIsConnected_set (sc : SessionConnected) (fd g : Fd) (connected : ℤ) :
    stompSessionIsConnected (stompSessionSetConnected sc fd connected) g =
      if g = fd then decide (connected ≠ 0) else stompSessionIsConnected sc g := by
  have hn : g.toNat % 64 < 64 := Nat.mod_lt _ (by omega)
  have hsplit : g = fd ↔ g.toNat / 64 = fd.toNat / 64 ∧ fd.toNat % 64 = g.toNat % 64 := by
    rw [← BitVec.toNat_inj]
    omega
  simp only [stompSessionIsConnected_eq, stompSessionSetConnected, sessionBit_eq, hsplit]
  by_cases hw : g.toNat / 64 = fd.toNat / 64
  · by_cases hc : connected = 0
    · simp only [hc, if_true, hw, Function.update_self, getLsbD_clear _ hn]
      by_cases hb : fd.toNat % 64 = g.toNat % 64 <;> simp [hb]
    · simp only [hc, if_false, hw, Function.update_self, getLsbD_set _ hn]
      by_cases hb : fd.toNat % 64 = g.toNat % 64 <;> simp [hb, hc]
  · by_cases hc : connected = 0 <;> simp [hw, hc]

@[simp] theorem stompSessionIsConnected_set_self (sc : SessionConnected) (fd : Fd)
    (connected : ℤ) :
    stompSessionIsConnected (stompSessionSetConnected sc fd connected) fd =
      decide (connected ≠ 0) := by
  simp [stompSessionIsConnected_set]

theorem stompSessionIsConnected_set_of_ne (sc : SessionConnected) {fd g : Fd} (h : g ≠ fd)
    (connected : ℤ) :
    stompSessionIsConnected (stompSessionSetConnected sc fd connected) g =
      stompSessionIsConnected sc g := by
  simp [stompSessionIsConnected_set, h]

end StompBroker.StompSession
