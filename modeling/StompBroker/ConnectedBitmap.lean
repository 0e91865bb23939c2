import StompBroker.StompSession
import Mathlib.Algebra.BigOperators.Intervals

/-! The bitmap of connected sessions as a set of descriptors, and its count. -/
namespace StompBroker.ConnectedBitmap
open SessionStorage StompSession

/-- The bitmap after calls of `stomp_session_set_connected`. -/
def afterCalls (calls : List (Fd × ℤ)) : SessionConnected :=
  calls.foldl (fun sc call => stompSessionSetConnected sc call.1 call.2) stompSessionInit

def lastArgument (calls : List (Fd × ℤ)) (fd : Fd) : Option ℤ := calls.reverse.lookup fd

def connectedSet (sc : SessionConnected) : Finset ℕ :=
  (Finset.range maxNumberOfConnections).filter fun fd => stompSessionIsConnected sc (BitVec.ofNat 32 fd)

theorem isConnected_afterCalls (calls : List (Fd × ℤ)) (fd : Fd) :
    stompSessionIsConnected (afterCalls calls) fd = true ↔ ∃ connected ≠ 0, lastArgument calls fd = some connected := by
  induction calls using List.reverseRecOn with
  | nil => simp [afterCalls, lastArgument, stompSessionIsConnected_init]
  | append_singleton calls call ih =>
    obtain ⟨g, connected⟩ := call
    have hlast : lastArgument (calls ++ [(g, connected)]) fd = if fd = g then some connected else lastArgument calls fd := by
      rw [lastArgument, List.reverse_append, List.reverse_singleton, List.singleton_append, List.lookup_cons]
      by_cases hg : fd = g
      · simp [hg]
      · rw [beq_false_of_ne hg, if_neg hg]
        rfl
    have hset : afterCalls (calls ++ [(g, connected)]) = stompSessionSetConnected (afterCalls calls) g connected := by
      simp [afterCalls]
    rw [hset, stompSessionIsConnected_set, hlast]
    by_cases hg : fd = g
    · simp [hg]
    · rw [if_neg hg, if_neg hg, ih]

def bitAt (w : BitVec 64) (j : ℕ) : ℕ := if w.getLsbD j then 1 else 0

theorem scan_eq_bitAt {j : ℕ} (hj : j < 64) (w : BitVec 64) : (if (1#64 <<< j) &&& w != 0#64 then 1 else 0) = bitAt w j := by
  rw [← BitVec.twoPow_eq, BitVec.and_comm, BitFlags.and_twoPow_ne_zero hj, bitAt]

theorem bitAt_upper (w : BitVec 64) (j : ℕ) : bitAt (w / 0x100000000#64) j = bitAt w (32 + j) := by
  have hdiv : w / 0x100000000#64 = w >>> 32 := BitVec.udiv_twoPow_eq_of_lt (k := 32) (by omega)
  rw [bitAt, bitAt, hdiv, BitVec.getLsbD_ushiftRight]

/-- The two scans of a word count its bits. -/
theorem scan_word (w : BitVec 64) :
    ((List.range 32).map fun j =>
      (if (1#64 <<< j) &&& w != 0#64 then 1 else 0) +
      (if (1#64 <<< j) &&& (w / 0x100000000#64) != 0#64 then 1 else 0)).sum = ∑ j ∈ Finset.range 64, bitAt w j := by
  calc ((List.range 32).map fun j => (if (1#64 <<< j) &&& w != 0#64 then 1 else 0) +
        (if (1#64 <<< j) &&& (w / 0x100000000#64) != 0#64 then 1 else 0)).sum
      = ((List.range 32).map fun j => bitAt w j + bitAt w (32 + j)).sum := by
        congr 1
        refine List.map_congr_left fun j hj => ?_
        have hlt : j < 64 := (List.mem_range.1 hj).trans (by omega)
        rw [scan_eq_bitAt hlt, scan_eq_bitAt hlt, bitAt_upper]
    _ = ∑ j ∈ Finset.range 32, (bitAt w j + bitAt w (32 + j)) := rfl
    _ = ∑ j ∈ Finset.range 64, bitAt w j := by rw [Finset.sum_add_distrib, ← Finset.sum_range_add]

theorem sum_words {m n : ℕ} (f : ℕ → ℕ) :
    ∑ i ∈ Finset.range m, ∑ j ∈ Finset.range n, f (i * n + j) = ∑ k ∈ Finset.range (m * n), f k := by
  induction m with
  | zero => simp
  | succ m ih => rw [Finset.sum_range_succ, ih, Nat.succ_mul, Finset.sum_range_add]

theorem connectedSize_eq_card (sc : SessionConnected) : stompSessionConnectedSize sc = (connectedSet sc).card := by
  have hbit : ∀ i < stompSessionSize, ∀ j < 64,
      bitAt (sc i) j = if stompSessionIsConnected sc (BitVec.ofNat 32 (i * 64 + j)) then 1 else 0 := by
    intro i hi j hj
    have hsize : stompSessionSize = 2048 := by decide
    have hfd : (BitVec.ofNat 32 (i * 64 + j)).toNat = i * 64 + j := by
      rw [BitVec.toNat_ofNat]
      omega
    rw [stompSessionIsConnected_eq, hfd, bitAt, show (i * 64 + j) / 64 = i by omega, show (i * 64 + j) % 64 = j by omega]
  calc stompSessionConnectedSize sc
      = ∑ i ∈ Finset.range stompSessionSize, ∑ j ∈ Finset.range 64, bitAt (sc i) j := by
        simp only [stompSessionConnectedSize, scan_word]
        rfl
    _ = ∑ i ∈ Finset.range stompSessionSize, ∑ j ∈ Finset.range 64,
          if stompSessionIsConnected sc (BitVec.ofNat 32 (i * 64 + j)) then 1 else 0 := by
        refine Finset.sum_congr rfl fun i hi => Finset.sum_congr rfl fun j hj => ?_
        exact hbit i (Finset.mem_range.1 hi) j (Finset.mem_range.1 hj)
    _ = ∑ fd ∈ Finset.range maxNumberOfConnections, if stompSessionIsConnected sc (BitVec.ofNat 32 fd) then 1 else 0 :=
        sum_words fun fd => if stompSessionIsConnected sc (BitVec.ofNat 32 fd) then 1 else 0
    _ = (connectedSet sc).card := by rw [connectedSet, Finset.card_filter]

/-- After any calls a descriptor is marked exactly when the last call for it said so, a further
call answers for its own descriptor only, and the size counts the marked descriptors. -/
theorem connected_bitmap_is_set (calls : List (Fd × ℤ)) :
    (∀ fd, stompSessionIsConnected (afterCalls calls) fd = true ↔
      ∃ connected ≠ 0, lastArgument calls fd = some connected) ∧
    (∀ fd g connected, g ≠ fd →
      stompSessionIsConnected (stompSessionSetConnected (afterCalls calls) fd connected) g =
        stompSessionIsConnected (afterCalls calls) g) ∧
    stompSessionConnectedSize (afterCalls calls) = (connectedSet (afterCalls calls)).card :=
  ⟨isConnected_afterCalls calls, fun _ _ connected h => stompSessionIsConnected_set_of_ne _ h connected,
    connectedSize_eq_card _⟩

end StompBroker.ConnectedBitmap
