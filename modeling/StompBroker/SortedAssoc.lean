import Mathlib.Tactic
import Mathlib.Data.List.Basic

/-! Association lists kept in the strict order of a comparison function. They are the
abstract value of every search tree that stores its keys under that comparison. -/
namespace StompBroker.SortedAssoc

variable {α β : Type*} (cmp : α → α → Ordering)

def Sorted (l : List (α × β)) : Prop := l.Pairwise fun p q => cmp p.1 q.1 = .lt

/-- Replace the value of a key in place, or enter the pair before the first larger key. -/
def put (key : α) (value : β) : List (α × β) → List (α × β)
  | [] => [(key, value)]
  | (k, v) :: rest =>
      match cmp key k with
      | .lt => (key, value) :: (k, v) :: rest
      | .eq => (k, value) :: rest
      | .gt => (k, v) :: put key value rest

def find (key : α) : List (α × β) → Option β
  | [] => none
  | (k, v) :: rest => if cmp key k = .eq then some v else find key rest

variable {cmp} {key k : α} {value v : β} {front back l : List (α × β)}

theorem sorted_split : Sorted cmp (front ++ (k, v) :: back) ↔
    Sorted cmp front ∧ Sorted cmp back ∧ (∀ p ∈ front, cmp p.1 k = .lt) ∧
      (∀ p ∈ back, cmp k p.1 = .lt) ∧ ∀ p ∈ front, ∀ q ∈ back, cmp p.1 q.1 = .lt := by
  simp only [Sorted, List.pairwise_append, List.pairwise_cons, List.mem_cons]
  constructor
  · rintro ⟨hf, ⟨hk, hb⟩, h⟩
    exact ⟨hf, hb, fun p hp => h p hp _ (Or.inl rfl), hk, fun p hp q hq => h p hp q (Or.inr hq)⟩
  · rintro ⟨hf, hb, hfk, hk, h⟩
    refine ⟨hf, ⟨hk, hb⟩, fun p hp q hq => ?_⟩
    rcases hq with rfl | hq
    · exact hfk p hp
    · exact h p hp q hq

theorem put_split_lt (h : cmp key k = .lt) :
    put cmp key value (front ++ (k, v) :: back) = put cmp key value front ++ (k, v) :: back := by
  induction front with
  | nil => simp [put, h]
  | cons p front ih =>
    simp only [List.cons_append, put, ih]
    split <;> rfl

theorem put_append_gt (hf : ∀ p ∈ front, cmp key p.1 = .gt) :
    put cmp key value (front ++ l) = front ++ put cmp key value l := by
  induction front with
  | nil => rfl
  | cons p front ih =>
    simp only [List.cons_append, put, hf p List.mem_cons_self]
    rw [ih fun q hq => hf q (List.mem_cons_of_mem p hq)]

theorem find_append_of_ne (hf : ∀ p ∈ front, cmp key p.1 ≠ .eq) :
    find cmp key (front ++ l) = find cmp key l := by
  induction front with
  | nil => rfl
  | cons p front ih =>
    simp only [List.cons_append, find, hf p List.mem_cons_self, if_false]
    exact ih fun q hq => hf q (List.mem_cons_of_mem p hq)

theorem find_append : find cmp key (front ++ back) = (find cmp key front).or (find cmp key back) := by
  induction front with
  | nil => rfl
  | cons p front ih =>
    simp only [List.cons_append, find, ih]
    split <;> rfl

section Lawful
variable [Std.LawfulEqCmp cmp]

theorem mem_put {p : α × β} (hp : p ∈ put cmp key value l) : p = (key, value) ∨ p ∈ l := by
  induction l with
  | nil => simpa [put] using hp
  | cons q l ih =>
    simp only [put] at hp
    split at hp
    · simpa using hp
    · rename_i heq
      rw [← Std.LawfulEqCmp.eq_of_compare heq] at hp
      rcases List.mem_cons.1 hp with hp | hp
      · exact Or.inl hp
      · exact Or.inr (List.mem_cons_of_mem q hp)
    · rcases List.mem_cons.1 hp with hp | hp
      · exact Or.inr (hp ▸ List.mem_cons_self)
      · exact (ih hp).imp_right (List.mem_cons_of_mem q)

theorem find_eq_none_iff : find cmp key l = none ↔ key ∉ l.map Prod.fst := by
  induction l with
  | nil => simp [find]
  | cons q l ih =>
    simp only [find, List.map_cons, List.mem_cons, not_or, ← ih]
    by_cases hc : cmp key q.1 = .eq
    · simp [Std.LawfulEqCmp.eq_of_compare hc]
    · have hne : key ≠ q.1 := fun h => hc (h ▸ Std.ReflCmp.compare_self)
      simp [hc, hne]

theorem mem_of_find (h : find cmp key l = some v) : (key, v) ∈ l := by
  induction l with
  | nil => simp [find] at h
  | cons q l ih =>
    simp only [find] at h
    split at h
    · rename_i hc
      rw [Std.LawfulEqCmp.eq_of_compare hc, ← Option.some_inj.1 h]
      exact List.mem_cons_self
    · exact List.mem_cons_of_mem q (ih h)

theorem nodup_of_sorted (hs : Sorted cmp l) : (l.map Prod.fst).Nodup := by
  refine List.pairwise_map.2 (hs.imp fun {p q} hlt heq => ?_)
  have hself : cmp q.1 q.1 = .eq := Std.ReflCmp.compare_self
  rw [heq, hself] at hlt
  exact absurd hlt (by decide)

theorem find_eq_some_iff (hn : (l.map Prod.fst).Nodup) : find cmp key l = some v ↔ (key, v) ∈ l := by
  refine ⟨mem_of_find, fun h => ?_⟩
  induction l with
  | nil => simp at h
  | cons q l ih =>
    rw [List.map_cons, List.nodup_cons] at hn
    rcases List.mem_cons.1 h with rfl | h
    · simp [find, Std.ReflCmp.compare_self]
    · have hne : cmp key q.1 ≠ .eq := by
        intro hc
        rw [← Std.LawfulEqCmp.eq_of_compare hc] at hn
        exact hn.1 (List.mem_map_of_mem h)
      simp only [find, hne, if_false]
      exact ih hn.2 h

/-- With distinct keys the order of the pairs does not matter. -/
theorem find_perm {l' : List (α × β)} (hp : l.Perm l') (hn : (l.map Prod.fst).Nodup) :
    find cmp key l = find cmp key l' := by
  have hn' : (l'.map Prod.fst).Nodup := (hp.map Prod.fst).nodup_iff.1 hn
  apply Option.ext
  intro v
  rw [find_eq_some_iff hn, find_eq_some_iff hn', hp.mem_iff]

end Lawful

section Ordered
variable [Std.TransCmp cmp]

theorem gt_of_front (hf : ∀ p ∈ front, cmp p.1 k = .lt) (h : cmp key k ≠ .lt) :
    ∀ p ∈ front, cmp key p.1 = .gt := by
  intro p hp
  have hk : cmp k key ≠ .gt := fun hg => h (Std.OrientedCmp.lt_of_gt hg)
  have hlt : cmp p.1 key = .lt := by
    cases hc : cmp k key with
    | lt => exact Std.TransCmp.lt_trans (hf p hp) hc
    | eq => exact Std.TransCmp.lt_of_lt_of_eq (hf p hp) hc
    | gt => exact absurd hc hk
  exact Std.OrientedCmp.gt_of_lt hlt

theorem put_split_eq (hf : ∀ p ∈ front, cmp p.1 k = .lt) (h : cmp key k = .eq) :
    put cmp key value (front ++ (k, v) :: back) = front ++ (k, value) :: back := by
  rw [put_append_gt (gt_of_front hf (by simp [h]))]
  simp [put, h]

theorem put_split_gt (hf : ∀ p ∈ front, cmp p.1 k = .lt) (h : cmp key k = .gt) :
    put cmp key value (front ++ (k, v) :: back) = front ++ (k, v) :: put cmp key value back := by
  rw [put_append_gt (gt_of_front hf (by simp [h]))]
  simp [put, h]

theorem find_split_lt (hb : ∀ p ∈ back, cmp k p.1 = .lt) (h : cmp key k = .lt) :
    find cmp key (front ++ (k, v) :: back) = find cmp key front := by
  have hnone : find cmp key ((k, v) :: back) = none := by
    rw [← List.append_nil ((k, v) :: back), find_append_of_ne]
    · rfl
    · intro p hp
      rcases List.mem_cons.1 hp with rfl | hp
      · simp [h]
      · simp [Std.TransCmp.lt_trans h (hb p hp)]
  rw [find_append, hnone, Option.or_none]

theorem find_split_eq (hf : ∀ p ∈ front, cmp p.1 k = .lt) (h : cmp key k = .eq) :
    find cmp key (front ++ (k, v) :: back) = some v := by
  have hgt : ∀ p ∈ front, cmp key p.1 = .gt := gt_of_front hf (by simp [h])
  rw [find_append_of_ne fun p hp => by simp [hgt p hp]]
  simp [find, h]

theorem find_split_gt (hf : ∀ p ∈ front, cmp p.1 k = .lt) (h : cmp key k = .gt) :
    find cmp key (front ++ (k, v) :: back) = find cmp key back := by
  have hgt : ∀ p ∈ front, cmp key p.1 = .gt := gt_of_front hf (by simp [h])
  rw [find_append_of_ne fun p hp => by simp [hgt p hp]]
  simp [find, h]

variable [Std.LawfulEqCmp cmp]

theorem sorted_put (hs : Sorted cmp l) : Sorted cmp (put cmp key value l) := by
  induction l with
  | nil => simp [put, Sorted]
  | cons q l ih =>
    obtain ⟨hq, hl⟩ := List.pairwise_cons.1 hs
    simp only [put]
    split
    · rename_i hlt
      refine List.pairwise_cons.2 ⟨fun p hp => ?_, hs⟩
      rcases List.mem_cons.1 hp with rfl | hp
      · exact hlt
      · exact Std.TransCmp.lt_trans hlt (hq p hp)
    · exact List.pairwise_cons.2 ⟨hq, hl⟩
    · rename_i hgt
      refine List.pairwise_cons.2 ⟨fun p hp => ?_, ih hl⟩
      rcases mem_put hp with rfl | hp
      · exact Std.OrientedCmp.lt_of_gt hgt
      · exact hq p hp

theorem find_put (other : α) :
    find cmp other (put cmp key value l) = if cmp other key = .eq then some value else find cmp other l := by
  induction l with
  | nil => simp [put, find]
  | cons q l ih =>
    simp only [put]
    split
    · simp [find]
    · rename_i heq
      have hkey : key = q.1 := Std.LawfulEqCmp.eq_of_compare heq
      subst hkey
      by_cases hc : cmp other q.1 = .eq <;> simp [find, hc]
    · rename_i hgt
      simp only [find, ih]
      by_cases hc : cmp other q.1 = .eq
      · have hother : other = q.1 := Std.LawfulEqCmp.eq_of_compare hc
        have hne : cmp other key ≠ .eq := by
          rw [hother, Std.OrientedCmp.lt_of_gt hgt]
          simp
        simp [hc, hne]
      · simp [hc]

/-- What a sequence of puts leaves behind: the last value given to a key, else the old one. -/
theorem find_foldl_put (puts : List (α × β)) :
    find cmp key (puts.foldl (fun l p => put cmp p.1 p.2 l) l) =
      (find cmp key puts.reverse).or (find cmp key l) := by
  induction puts generalizing l with
  | nil => rfl
  | cons p puts ih =>
    rw [List.foldl_cons, ih, List.reverse_cons, find_append, find_put, Option.or_assoc]
    congr 1
    simp only [find]
    split <;> rfl

end Ordered
end StompBroker.SortedAssoc
