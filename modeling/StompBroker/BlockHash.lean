import Mathlib.Tactic

/-! Hashes that compress a text block by block. A streaming hash keeps the elements behind the last
full block and may get the text in pieces of any length. -/
namespace StompBroker.BlockHash
variable {σ β : Type*} (n : ℕ) (compress : σ → List β → σ)

def foldBlocks (s : σ) (xs : List β) : σ :=
  (List.range (xs.length / n)).foldl (fun s i => compress s ((xs.drop (i * n)).take n)) s

def leftover (xs : List β) : List β := xs.drop (xs.length / n * n)

/-- One more element: a block that is full goes into the state. -/
def absorb (c : σ × List β) (x : β) : σ × List β :=
  if c.2.length + 1 = n then (compress c.1 (c.2 ++ [x]), []) else (c.1, c.2 ++ [x])

variable {n compress} {s : σ} {xs ys buf : List β} {x : β}

theorem absorb_within (h : buf.length + 1 ≠ n) : absorb n compress (s, buf) x = (s, buf ++ [x]) := if_neg h

theorem absorb_full (h : buf.length + 1 = n) : absorb n compress (s, buf) x = (compress s (buf ++ [x]), []) := if_pos h

theorem length_leftover : (leftover n xs).length = xs.length % n := by
  have := Nat.div_add_mod' xs.length n
  rw [leftover, List.length_drop]
  omega

theorem leftover_lt (hn : 0 < n) : (leftover n xs).length < n := length_leftover ▸ Nat.mod_lt _ hn

theorem foldBlocks_snoc_within (hn : 0 < n) (h : xs.length % n + 1 ≠ n) :
    foldBlocks n compress s (xs ++ [x]) = foldBlocks n compress s xs ∧
      leftover n (xs ++ [x]) = leftover n xs ++ [x] := by
  have hlt := Nat.mod_lt xs.length hn
  have hdiv : (xs ++ [x]).length / n = xs.length / n := by
    rw [List.length_append, List.length_singleton, Nat.succ_div, if_neg, Nat.add_zero]
    intro hdvd
    have hmod := Nat.mod_eq_zero_of_dvd hdvd
    rw [Nat.add_mod, Nat.mod_eq_of_lt (a := 1) (by omega), Nat.mod_eq_of_lt (by omega)] at hmod
    omega
  have hle := Nat.div_mul_le_self xs.length n
  refine ⟨?_, by rw [leftover, hdiv, List.drop_append_of_le_length hle, leftover]⟩
  rw [foldBlocks, foldBlocks, hdiv]
  refine List.foldl_ext _ _ _ fun s i hi => ?_
  have hi' : (i + 1) * n ≤ xs.length := (Nat.mul_le_mul_right n (List.mem_range.1 hi)).trans hle
  rw [Nat.succ_mul] at hi'
  rw [List.drop_append_of_le_length (by omega), List.take_append_of_le_length (by rw [List.length_drop]; omega)]

theorem foldBlocks_snoc_full (hn : 0 < n) (h : xs.length % n + 1 = n) :
    foldBlocks n compress s (xs ++ [x]) = compress (foldBlocks n compress s xs) (leftover n xs ++ [x]) ∧
      leftover n (xs ++ [x]) = [] := by
  have hsplit := Nat.div_add_mod' xs.length n
  have hlen : (xs ++ [x]).length = (xs.length / n + 1) * n := by
    rw [List.length_append, List.length_singleton, Nat.succ_mul]
    omega
  have hdiv : (xs ++ [x]).length / n = xs.length / n + 1 := by rw [hlen, Nat.mul_div_cancel _ hn]
  refine ⟨?_, by rw [leftover, hdiv, ← hlen, List.drop_length]⟩
  rw [foldBlocks, hdiv, List.range_succ, List.foldl_append, List.foldl_cons, List.foldl_nil, foldBlocks, leftover]
  have hle := Nat.div_mul_le_self xs.length n
  congr 1
  · refine List.foldl_ext _ _ _ fun s i hi => ?_
    have hi' : (i + 1) * n ≤ xs.length := (Nat.mul_le_mul_right n (List.mem_range.1 hi)).trans hle
    rw [Nat.succ_mul] at hi'
    rw [List.drop_append_of_le_length (by omega), List.take_append_of_le_length (by rw [List.length_drop]; omega)]
  · rw [List.drop_append_of_le_length hle]
    refine List.take_of_length_le ?_
    rw [List.length_append, List.length_drop, List.length_singleton]
    omega

/-- Element by element the blocks of the whole text are compressed. -/
theorem foldl_absorb (hn : 0 < n) (s : σ) (xs : List β) :
    xs.foldl (absorb n compress) (s, []) = (foldBlocks n compress s xs, leftover n xs) := by
  induction xs using List.reverseRecOn with
  | nil => simp [foldBlocks, leftover]
  | append_singleton xs x ih =>
    rw [List.foldl_append, ih, List.foldl_cons, List.foldl_nil]
    by_cases h : xs.length % n + 1 = n
    · obtain ⟨hfold, hrest⟩ := @foldBlocks_snoc_full σ β n compress s xs x hn h
      rw [absorb_full (by rwa [length_leftover]), hfold, hrest]
    · obtain ⟨hfold, hrest⟩ := @foldBlocks_snoc_within σ β n compress s xs x hn h
      rw [absorb_within (by rwa [length_leftover]), hfold, hrest]

theorem foldl_absorb_within (h : buf.length + ys.length < n) :
    ys.foldl (absorb n compress) (s, buf) = (s, buf ++ ys) := by
  induction ys generalizing buf with
  | nil => simp
  | cons y ys ih =>
    rw [List.length_cons] at h
    rw [List.foldl_cons, absorb_within (by omega), ih (by rw [List.length_append, List.length_singleton]; omega),
      List.append_assoc, List.singleton_append]

theorem foldl_absorb_block (h : buf.length + ys.length = n) (hne : ys ≠ []) :
    ys.foldl (absorb n compress) (s, buf) = (compress s (buf ++ ys), []) := by
  obtain ⟨ys, y, rfl⟩ := List.eq_nil_or_concat' ys |>.resolve_left hne
  rw [List.length_append, List.length_singleton] at h
  rw [List.foldl_append, List.foldl_cons, List.foldl_nil, foldl_absorb_within (by omega),
    absorb_full (by rw [List.length_append]; omega), List.append_assoc]

/-- A text whose length is a multiple of the block length, from the state that its front leaves. -/
theorem foldBlocks_append (hn : 0 < n) (s : σ) (xs ys : List β) :
    foldBlocks n compress s (xs ++ ys) = (ys.foldl (absorb n compress) (foldBlocks n compress s xs, leftover n xs)).1 := by
  rw [← foldl_absorb hn, ← List.foldl_append, foldl_absorb hn]

end StompBroker.BlockHash
