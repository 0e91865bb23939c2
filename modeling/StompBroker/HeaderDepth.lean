import StompBroker.HeaderMap
import Mathlib.Data.Nat.Fib.Basic

/-! How deep a lookup in the header map goes. A balanced tree of a given height has at least as
many keys as the Fibonacci numbers say, so its height is logarithmic in its keys. -/
namespace StompBroker.HeaderDepth
open CString AssociativeArray HeaderMap SortedAssoc TransitionSystem

/-- The key sits this many levels down, the root being the first. -/
inductive DepthOf (key : CStr) : AaItem → ℕ → Prop
  | root (h : ℕ) (v : CStr) (l r : AaItem) : DepthOf key (.node h key v l r) 1
  | left {d : ℕ} {l : AaItem} (h : ℕ) (k v : CStr) (r : AaItem) (below : DepthOf key l d) :
      DepthOf key (.node h k v l r) (d + 1)
  | right {d : ℕ} {r : AaItem} (h : ℕ) (k v : CStr) (l : AaItem) (below : DepthOf key r d) :
      DepthOf key (.node h k v l r) (d + 1)

/-- The calls of `strcmp` that `aa_has` makes. -/
def aaHasComparisons (key : CStr) : AaItem → ℕ
  | .nil => 0
  | .node _ k _ l r =>
      match strcmp key k with
      | .eq => 1
      | .lt => aaHasComparisons key l + 1
      | .gt => aaHasComparisons key r + 1

def distinctKeys (calls : List MapCall) : Finset CStr := ((calls.flatMap MapCall.puts).map Prod.fst).toFinset

variable {t : AaItem} {key : CStr} {d : ℕ}

theorem DepthOf.pos (h : DepthOf key t d) : 1 ≤ d := by
  cases h <;> omega

theorem DepthOf.mem (h : DepthOf key t d) : key ∈ (entries t).map Prod.fst := by
  induction h with
  | root h v l r => simp [entries]
  | left h k v r _ ih =>
    rw [entries, List.map_append]
    exact List.mem_append_left _ ih
  | right h k v l _ ih =>
    rw [entries, List.map_append, List.map_cons]
    exact List.mem_append_right _ (List.mem_cons_of_mem k ih)

/-- A lookup in a search tree counts the levels down to the key, wherever it is. -/
theorem DepthOf.aaHas_eq (hd : DepthOf key t d) (h : Sorted strcmp (entries t)) : aaHas key t = d := by
  induction hd with
  | root h' v l r => simp [aaHas, strcmp_eq_iff.2]
  | left h' k v r below ih =>
    obtain ⟨hl, -, hlk, -, -⟩ := sorted_split.1 h
    obtain ⟨p, hp, hkey⟩ := List.mem_map.1 below.mem
    have hpos := below.pos
    simp only [aaHas, hkey ▸ hlk p hp, ih hl]
    exact if_pos (by omega)
  | right h' k v l below ih =>
    obtain ⟨-, hr, -, hkr, -⟩ := sorted_split.1 h
    obtain ⟨p, hp, hkey⟩ := List.mem_map.1 below.mem
    have hgt : strcmp key k = .gt := Std.OrientedCmp.gt_of_lt (hkey ▸ hkr p hp)
    have hpos := below.pos
    simp only [aaHas, hgt, ih hr]
    exact if_pos (by omega)

theorem depthOf_aaHas (h : aaHas key t ≠ 0) : DepthOf key t (aaHas key t) := by
  induction t with
  | nil => exact absurd rfl h
  | node h' k v l r ihl ihr =>
    cases hc : strcmp key k with
    | eq =>
      obtain rfl := strcmp_eq_iff.1 hc
      simp only [aaHas, hc]
      exact .root h' v l r
    | lt =>
      simp only [aaHas, hc, ne_eq, ite_eq_right_iff, not_forall] at h ⊢
      rw [if_pos h.1]
      exact .left h' k v r (ihl h.1)
    | gt =>
      simp only [aaHas, hc, ne_eq, ite_eq_right_iff, not_forall] at h ⊢
      rw [if_pos h.1]
      exact .right h' k v l (ihr h.1)

theorem DepthOf.le_realHeight (h : DepthOf key t d) : d ≤ realHeight t := by
  induction h with
  | root => rw [realHeight]; omega
  | left _ _ _ _ _ ih => rw [realHeight]; omega
  | right _ _ _ _ _ ih => rw [realHeight]; omega

theorem aaHasComparisons_le (key : CStr) (t : AaItem) : aaHasComparisons key t ≤ realHeight t := by
  induction t with
  | nil => exact le_rfl
  | node h' k v l r ihl ihr =>
    cases hc : strcmp key k <;> simp only [aaHasComparisons, hc, realHeight] <;> omega

/-- The sparsest balanced trees are the Fibonacci trees. -/
theorem fib_le_of_avl (h : Avl t) : Nat.fib (t.height + 2) ≤ (entries t).length + 1 := by
  induction t with
  | nil => simp [entries]
  | node h' k v l r ihl ihr =>
    obtain ⟨rfl, hlr, hrl, hl, hr⟩ := h
    have hn : (entries (.node (max l.height r.height + 1) k v l r)).length =
        (entries l).length + (entries r).length + 1 := by
      simp [entries]
      omega
    have ihl := ihl hl
    have ihr := ihr hr
    have hsum : ∀ m, Nat.fib (m + 1 + 2) = Nat.fib (m + 1) + Nat.fib (m + 2) := fun m => Nat.fib_add_two
    rw [height_node, hn, hsum]
    -- the higher child gives the larger number, the other one at least the number before it
    rcases le_total r.height l.height with hle | hle
    · have hlow : Nat.fib (l.height + 1) ≤ Nat.fib (r.height + 2) := Nat.fib_mono (by omega)
      rw [max_eq_left hle]
      omega
    · have hlow : Nat.fib (r.height + 1) ≤ Nat.fib (l.height + 2) := Nat.fib_mono (by omega)
      rw [max_eq_right hle]
      omega

theorem height_le_of_fib_le {h n : ℕ} (hfib : Nat.fib (h + 2) ≤ n + 1) (hn : n ≤ 1024) : h ≤ 14 := by
  by_contra hlt
  have hmono : Nat.fib 17 ≤ Nat.fib (h + 2) := Nat.fib_mono (by omega)
  have h17 : Nat.fib 17 = 1597 := by decide
  omega

section Runs
variable {calls : List MapCall} (h : Run (Steps mapStep) .nil calls t)
include h

theorem mem_distinctKeys : key ∈ distinctKeys calls ↔ key ∈ (entries t).map Prod.fst := by
  have hv := valid_of_run h
  have hvalue : find strcmp key (entries t) = find strcmp key (calls.flatMap MapCall.puts).reverse := by
    rw [← aaValue_eq_find _ hv.sorted]
    conv_lhs => rw [run_eq_putAll h]
    rw [aaValue_putAll valid_nil, aaValue, aaGet, Option.or_none]
  have hnone := @find_eq_none_iff _ _ strcmp key (entries t) _
  rw [hvalue, find_eq_none_iff, not_iff_not, List.map_reverse, List.mem_reverse] at hnone
  rw [distinctKeys, List.mem_toFinset, hnone]

theorem card_distinctKeys : (distinctKeys calls).card = (entries t).length := by
  have hnodup : ((entries t).map Prod.fst).Nodup := nodup_of_sorted (valid_of_run h).sorted
  have heq : distinctKeys calls = ((entries t).map Prod.fst).toFinset := by
    ext key
    rw [mem_distinctKeys h, List.mem_toFinset]
  rw [heq, List.toFinset_card_of_nodup hnodup, List.length_map]

theorem aaHas_ne_zero_of_mem (hkey : key ∈ distinctKeys calls) : aaHas key t ≠ 0 := by
  have hnone := @find_eq_none_iff _ _ strcmp key (entries t) _
  rw [aaHas_ne_zero]
  rcases aaGet_cases key t with ⟨-, hn⟩ | ⟨_, _, _, _, hg, -⟩
  · rw [aaValue_eq_find _ (valid_of_run h).sorted, hnone] at hn
    exact absurd ((mem_distinctKeys h).1 hkey) hn
  · simp [hg]

end Runs

/-- The number of keys bounds the height of the tree, and the height bounds every lookup. -/
theorem header_map_depth {calls : List MapCall} (h : Run (Steps mapStep) .nil calls t) :
    Nat.fib (t.height + 2) ≤ (distinctKeys calls).card + 1 ∧
      (∀ key ∈ distinctKeys calls, (∀ d, DepthOf key t d ↔ d = aaHas key t) ∧ 1 ≤ aaHas key t ∧
        aaHas key t ≤ t.height) ∧
      ((distinctKeys calls).card ≤ 1024 → ∀ key, aaHas key t ≤ 14 ∧ aaHasComparisons key t ≤ 14) := by
  have hv := valid_of_run h
  have hfib : Nat.fib (t.height + 2) ≤ (distinctKeys calls).card + 1 := card_distinctKeys h ▸ fib_le_of_avl hv.avl
  have hheight := hv.avl.height_eq
  refine ⟨hfib, fun key hkey => ?_, fun hn key => ?_⟩
  · have hdepth := depthOf_aaHas (aaHas_ne_zero_of_mem h hkey)
    refine ⟨fun d => ⟨fun hd => (hd.aaHas_eq hv.sorted).symm, fun hd => hd ▸ hdepth⟩, hdepth.pos, ?_⟩
    rw [hheight]
    exact hdepth.le_realHeight
  · have h14 : realHeight t ≤ 14 := hheight ▸ height_le_of_fib_le hfib hn
    refine ⟨?_, (aaHasComparisons_le key t).trans h14⟩
    by_cases hkey : aaHas key t = 0
    · omega
    · exact (depthOf_aaHas hkey).le_realHeight.trans h14

theorem header_map_depth_sample :
    Nat.fib (sampleMap.height + 2) ≤ (distinctKeys sampleCalls).card + 1 ∧
      DepthOf (lit "c") sampleMap 2 ∧ aaHasComparisons (lit "d") sampleMap ≤ 14 := by
  obtain ⟨hfib, hdepth, hcomparisons⟩ := header_map_depth run_sampleCalls
  exact ⟨hfib, ((hdepth (lit "c") (by decide)).1 2).2 (by decide), (hcomparisons (by decide) (lit "d")).2⟩

end StompBroker.HeaderDepth
