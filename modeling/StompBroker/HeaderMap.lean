import StompBroker.AssociativeArray
import StompBroker.SortedAssoc
import StompBroker.TransitionSystem

/-! The header map as a finite map. The pairs of a tree in key order are its abstract
value: rotations keep them, a put is the put of sorted association lists, and the lookups
read them. The stored heights and the balance are a second, independent invariant. -/
namespace StompBroker.HeaderMap
open CString AssociativeArray SortedAssoc TransitionSystem

theorem strcmp_eq_compareLex (a b : CStr) : strcmp a b = List.compareLex compare a b := by
  induction a generalizing b with
  | nil => cases b <;> rfl
  | cons x a ih =>
    cases b with
    | nil => rfl
    | cons y b => rw [strcmp, ih, List.compareLex_cons_cons]

theorem strcmp_eq : strcmp = List.compareLex compare := by
  funext a b
  exact strcmp_eq_compareLex a b

instance : Std.TransCmp strcmp := strcmp_eq ▸ inferInstance
instance : Std.LawfulEqCmp strcmp := strcmp_eq ▸ inferInstance

theorem strcmp_eq_iff {a b : CStr} : strcmp a b = .eq ↔ a = b := Std.LawfulEqCmp.compare_eq_iff_eq

def entries : AaItem → List (CStr × CStr)
  | .nil => []
  | .node _ k v l r => entries l ++ (k, v) :: entries r

/-- The pairs of a tree in the order in which it is serialised and merged. -/
def preorder : AaItem → List (CStr × CStr)
  | .nil => []
  | .node _ k v l r => (k, v) :: (preorder l ++ preorder r)

theorem preorder_perm (t : AaItem) : (preorder t).Perm (entries t) := by
  induction t with
  | nil => exact List.Perm.nil
  | node h k v l r ihl ihr => exact ((ihl.append ihr).cons (k, v)).trans List.perm_middle.symm

/-- Keys strictly below a node on its left, strictly above on its right. -/
def SearchTree : AaItem → Prop
  | .nil => True
  | .node _ k _ l r =>
      SearchTree l ∧ SearchTree r ∧ (∀ p ∈ entries l, strcmp p.1 k = .lt) ∧
        ∀ p ∈ entries r, strcmp k p.1 = .lt

theorem searchTree_iff_sorted {t : AaItem} : SearchTree t ↔ Sorted strcmp (entries t) := by
  induction t with
  | nil => exact iff_of_true trivial List.Pairwise.nil
  | node h' k v l r ihl ihr =>
    rw [SearchTree, entries, sorted_split, ihl, ihr]
    constructor
    · rintro ⟨hl, hr, hlk, hkr⟩
      exact ⟨hl, hr, hlk, hkr, fun p hp q hq => Std.TransCmp.lt_trans (hlk p hp) (hkr q hq)⟩
    · rintro ⟨hl, hr, hlk, hkr, -⟩
      exact ⟨hl, hr, hlk, hkr⟩

@[simp] theorem entries_setHeight (t : AaItem) : entries (setHeight t) = entries t := by
  cases t <;> rfl

@[simp] theorem entries_aaRotateRight (t : AaItem) : entries (aaRotateRight t) = entries t := by
  unfold aaRotateRight
  split <;> simp [entries]

@[simp] theorem entries_aaRotateLeft (t : AaItem) : entries (aaRotateLeft t) = entries t := by
  unfold aaRotateLeft
  split <;> simp [entries]

@[simp] theorem entries_aaRotateRightLeft (t : AaItem) : entries (aaRotateRightLeft t) = entries t := by
  unfold aaRotateRightLeft
  split <;> simp [entries]

@[simp] theorem entries_aaRotateLeftRight (t : AaItem) : entries (aaRotateLeftRight t) = entries t := by
  unfold aaRotateLeftRight
  split <;> simp [entries]

@[simp] theorem entries_rebalance (t : AaItem) : entries (rebalance t) = entries t := by
  cases t with
  | nil => rfl
  | node h k v l r =>
    simp only [rebalance]
    split_ifs <;> simp

theorem entries_aaSetOrPutItem (key value : CStr) {t : AaItem} (h : Sorted strcmp (entries t)) :
    entries (aaSetOrPutItem key value t).1 = put strcmp key value (entries t) := by
  induction t with
  | nil => rfl
  | node h' k v l r ihl ihr =>
    obtain ⟨hl, hr, hlk, -, -⟩ := sorted_split.1 h
    cases hc : strcmp key k with
    | lt =>
      rw [entries, put_split_lt hc, ← ihl hl]
      simp only [aaSetOrPutItem, hc]
      split <;> simp [entries]
    | eq =>
      rw [entries, put_split_eq hlk hc]
      simp [aaSetOrPutItem, hc, entries]
    | gt =>
      rw [entries, put_split_gt hlk hc, ← ihr hr]
      simp only [aaSetOrPutItem, hc]
      split <;> simp [entries]

theorem entries_aaPut {t : AaItem} (h : Sorted strcmp (entries t)) (key value : CStr) :
    entries (aaPut t key value) = put strcmp key value (entries t) :=
  entries_aaSetOrPutItem key value h

theorem aaMergeItems_eq_foldl (target source : AaItem) :
    aaMergeItems target source = (preorder source).foldl (fun t p => aaPut t p.1 p.2) target := by
  induction source generalizing target with
  | nil => rfl
  | node h k v l r ihl ihr =>
    rw [aaMergeItems, ihr, ihl, preorder, List.foldl_cons, List.foldl_append]

theorem aaMerge_eq_some {target source result : AaItem} :
    aaMerge target source = some result ↔ source ≠ .nil ∧ aaMergeItems target source = result := by
  cases source <;> simp [aaMerge]

def realHeight : AaItem → ℕ
  | .nil => 0
  | .node _ _ _ l r => max (realHeight l) (realHeight r) + 1

def HeightsStored : AaItem → Prop
  | .nil => True
  | .node h k v l r => h = realHeight (.node h k v l r) ∧ HeightsStored l ∧ HeightsStored r

def Balanced : AaItem → Prop
  | .nil => True
  | .node _ _ _ l r =>
      realHeight l ≤ realHeight r + 1 ∧ realHeight r ≤ realHeight l + 1 ∧ Balanced l ∧ Balanced r

/-- Both together, in terms of the stored heights that the code compares. -/
def Avl : AaItem → Prop
  | .nil => True
  | .node h _ _ l r =>
      h = max l.height r.height + 1 ∧ l.height ≤ r.height + 1 ∧ r.height ≤ l.height + 1 ∧
        Avl l ∧ Avl r

theorem Avl.height_eq {t : AaItem} (h : Avl t) : t.height = realHeight t := by
  induction t with
  | nil => rfl
  | node h' k v l r ihl ihr =>
    obtain ⟨hh, -, -, hl, hr⟩ := h
    rw [AaItem.height, hh, ihl hl, ihr hr, realHeight]

theorem Avl.heightsStored {t : AaItem} (h : Avl t) : HeightsStored t := by
  induction t with
  | nil => exact trivial
  | node h' k v l r ihl ihr => exact ⟨h.height_eq, ihl h.2.2.2.1, ihr h.2.2.2.2⟩

theorem Avl.balanced {t : AaItem} (h : Avl t) : Balanced t := by
  induction t with
  | nil => exact trivial
  | node h' k v l r ihl ihr =>
    obtain ⟨-, hlr, hrl, hl, hr⟩ := h
    rw [hl.height_eq, hr.height_eq] at hlr hrl
    exact ⟨hlr, hrl, ihl hl, ihr hr⟩

@[simp] theorem height_nil : AaItem.nil.height = 0 := rfl
@[simp] theorem height_node (h : ℕ) (k v : CStr) (l r : AaItem) : (AaItem.node h k v l r).height = h := rfl
@[simp] theorem balance_node (h : ℕ) (k v : CStr) (l r : AaItem) :
    balance (.node h k v l r) = (r.height : ℤ) - l.height := rfl

@[simp] theorem setHeight_node (h : ℕ) (k v : CStr) (l r : AaItem) :
    setHeight (.node h k v l r) = .node (max l.height r.height + 1) k v l r := by
  simp only [setHeight, maxH]
  split_ifs <;> congr 2 <;> omega

/-- What the last steps of an insertion make of a node with subtrees of heights `m` and `n`. -/
def Mended (m n : ℕ) (t : AaItem) : Prop :=
  Avl t ∧ max m n ≤ t.height ∧ t.height ≤ max m n + 1

theorem aaRotateRight_mended {h : ℕ} {k v : CStr} {l r : AaItem} (hl : Avl l) (hr : Avl r)
    (hlr : l.height = r.height + 2) (hb : balance l ≤ 0) :
    Mended l.height r.height (aaRotateRight (.node h k v l r)) := by
  cases l with
  | nil => simp at hlr
  | node lh lk lv ll lr =>
    obtain ⟨hh, h1, h2, hll, hlr'⟩ := hl
    simp only [height_node, balance_node] at hlr hb
    simp only [Mended, aaRotateRight, setHeight_node, Avl, height_node]
    exact ⟨⟨trivial, by omega, by omega, hll, trivial, by omega, by omega, hlr', hr⟩, by omega, by omega⟩

theorem aaRotateLeft_mended {h : ℕ} {k v : CStr} {l r : AaItem} (hl : Avl l) (hr : Avl r)
    (hrl : r.height = l.height + 2) (hb : balance r ≥ 0) :
    Mended l.height r.height (aaRotateLeft (.node h k v l r)) := by
  cases r with
  | nil => simp at hrl
  | node rh rk rv rl rr =>
    obtain ⟨hh, h1, h2, hrl', hrr⟩ := hr
    simp only [height_node, balance_node] at hrl hb
    simp only [Mended, aaRotateLeft, setHeight_node, Avl, height_node]
    exact ⟨⟨trivial, by omega, by omega, ⟨trivial, by omega, by omega, hl, hrl'⟩, hrr⟩, by omega, by omega⟩

theorem aaRotateLeftRight_mended {h : ℕ} {k v : CStr} {l r : AaItem} (hl : Avl l) (hr : Avl r)
    (hlr : l.height = r.height + 2) (hb : ¬ balance l ≤ 0) :
    Mended l.height r.height (aaRotateLeftRight (.node h k v l r)) := by
  cases l with
  | nil => simp at hlr
  | node lh lk lv ll lr =>
    obtain ⟨hh, h1, h2, hll, hlr'⟩ := hl
    simp only [height_node, balance_node] at hlr hb
    cases lr with
    | nil => simp at hb
    | node mh mk mv ml mr =>
      obtain ⟨hm, h3, h4, hml, hmr⟩ := hlr'
      simp only [height_node] at hh h1 h2 hb
      simp only [Mended, aaRotateLeftRight, aaRotateLeft, aaRotateRight, setHeight_node, Avl, height_node]
      exact ⟨⟨trivial, by omega, by omega, ⟨trivial, by omega, by omega, hll, hml⟩,
        trivial, by omega, by omega, hmr, hr⟩, by omega, by omega⟩

theorem aaRotateRightLeft_mended {h : ℕ} {k v : CStr} {l r : AaItem} (hl : Avl l) (hr : Avl r)
    (hrl : r.height = l.height + 2) (hb : ¬ balance r ≥ 0) :
    Mended l.height r.height (aaRotateRightLeft (.node h k v l r)) := by
  cases r with
  | nil => simp at hrl
  | node rh rk rv rl rr =>
    obtain ⟨hh, h1, h2, hrl', hrr⟩ := hr
    simp only [height_node, balance_node] at hrl hb
    cases rl with
    | nil => simp at hb
    | node mh mk mv ml mr =>
      obtain ⟨hm, h3, h4, hml, hmr⟩ := hrl'
      simp only [height_node] at hh h1 h2 hb
      simp only [Mended, aaRotateRightLeft, aaRotateLeft, aaRotateRight, setHeight_node, Avl, height_node]
      exact ⟨⟨trivial, by omega, by omega, ⟨trivial, by omega, by omega, hl, hml⟩,
        trivial, by omega, by omega, hmr, hrr⟩, by omega, by omega⟩

/-- After an insertion below it a node is off by at most two; one rotation mends that. -/
theorem rebalance_mended {h : ℕ} {k v : CStr} {l r : AaItem} (hl : Avl l) (hr : Avl r)
    (hlr : l.height ≤ r.height + 2) (hrl : r.height ≤ l.height + 2) :
    Mended l.height r.height (rebalance (.node h k v l r)) := by
  simp only [rebalance, setHeight_node, balance_node]
  split_ifs with hleft hb hright hb
  · exact aaRotateRight_mended hl hr (by omega) hb
  · exact aaRotateLeftRight_mended hl hr (by omega) hb
  · exact aaRotateLeft_mended hl hr (by omega) hb
  · exact aaRotateRightLeft_mended hl hr (by omega) hb
  · exact ⟨⟨rfl, by omega, by omega, hl, hr⟩, by simp, by simp⟩

theorem rebalance_height {h : ℕ} {k v : CStr} {l r : AaItem} (hlr : l.height ≤ r.height + 1)
    (hrl : r.height ≤ l.height + 1) :
    (rebalance (.node h k v l r)).height = max l.height r.height + 1 := by
  have hleft : ¬ ((r.height : ℤ) - l.height < -1) := by omega
  have hright : ¬ ((r.height : ℤ) - l.height > 1) := by omega
  simp [rebalance, hleft, hright]

theorem rebalance_grown {h m n : ℕ} {k v : CStr} {l r : AaItem} (hl : Avl l) (hr : Avl r)
    (hmn : m ≤ n + 1) (hnm : n ≤ m + 1) (hm : m ≤ l.height) (hn : n ≤ r.height)
    (hgrow : l.height + r.height ≤ m + n + 1) :
    Avl (rebalance (.node h k v l r)) ∧ max m n + 1 ≤ (rebalance (.node h k v l r)).height ∧
      (rebalance (.node h k v l r)).height ≤ max m n + 2 := by
  obtain ⟨ha, hlow, hhigh⟩ := rebalance_mended (h := h) (k := k) (v := v) hl hr (by omega) (by omega)
  refine ⟨ha, ?_, by omega⟩
  by_cases hflat : l.height ≤ r.height + 1 ∧ r.height ≤ l.height + 1
  · rw [rebalance_height hflat.1 hflat.2]
    omega
  · omega

/-- An insertion keeps the tree balanced and raises it by at most one, an overwrite by none. -/
theorem aaSetOrPutItem_avl (key value : CStr) {t : AaItem} (h : Avl t) :
    Avl (aaSetOrPutItem key value t).1 ∧ t.height ≤ (aaSetOrPutItem key value t).1.height ∧
      (aaSetOrPutItem key value t).1.height ≤ t.height + 1 ∧
      ((aaSetOrPutItem key value t).2 = false →
        (aaSetOrPutItem key value t).1.height = t.height) := by
  induction t with
  | nil => simp [aaSetOrPutItem, aaItemCreate, Avl]
  | node h' k v l r ihl ihr =>
    obtain ⟨hh, hlr, hrl, hl, hr⟩ := h
    cases hc : strcmp key k with
    | eq => simp [aaSetOrPutItem, hc, Avl, hh, hlr, hrl, hl, hr]
    | lt =>
      obtain ⟨hl', h1, h2, h3⟩ := ihl hl
      simp only [aaSetOrPutItem, hc]
      split_ifs with hnew
      · obtain ⟨ha, h4, h5⟩ := rebalance_grown (h := h') (k := k) (v := v) hl' hr hlr hrl h1 le_rfl (by omega)
        simp only [height_node]
        exact ⟨ha, by omega, by omega, by simp⟩
      · have hsame := h3 (by simpa using hnew)
        exact ⟨⟨by rw [hsame, hh], by omega, by omega, hl', hr⟩, by simp, by simp, by simp⟩
    | gt =>
      obtain ⟨hr', h1, h2, h3⟩ := ihr hr
      simp only [aaSetOrPutItem, hc]
      split_ifs with hnew
      · obtain ⟨ha, h4, h5⟩ := rebalance_grown (h := h') (k := k) (v := v) hl hr' hlr hrl le_rfl h1 (by omega)
        simp only [height_node]
        exact ⟨ha, by omega, by omega, by simp⟩
      · have hsame := h3 (by simpa using hnew)
        exact ⟨⟨by rw [hsame, hh], by omega, by omega, hl, hr'⟩, by simp, by simp, by simp⟩

theorem avl_aaPut {t : AaItem} (h : Avl t) (key value : CStr) : Avl (aaPut t key value) :=
  (aaSetOrPutItem_avl key value h).1

def aaValue (key : CStr) (t : AaItem) : Option CStr :=
  match aaGet key t with
  | .nil => none
  | .node _ _ v _ _ => some v

theorem aaValue_eq_find (key : CStr) {t : AaItem} (h : Sorted strcmp (entries t)) :
    aaValue key t = find strcmp key (entries t) := by
  induction t with
  | nil => rfl
  | node h' k v l r ihl ihr =>
    obtain ⟨hl, hr, hlk, hkr, -⟩ := sorted_split.1 h
    cases hc : strcmp key k with
    | lt =>
      rw [entries, find_split_lt hkr hc, ← ihl hl]
      simp [aaValue, aaGet, hc]
    | eq =>
      rw [entries, find_split_eq hlk hc]
      simp [aaValue, aaGet, hc]
    | gt =>
      rw [entries, find_split_gt hlk hc, ← ihr hr]
      simp [aaValue, aaGet, hc]

theorem aaGet_cases (key : CStr) (t : AaItem) :
    (aaGet key t = .nil ∧ aaValue key t = none) ∨
      ∃ h v l r, aaGet key t = .node h key v l r ∧ aaValue key t = some v := by
  induction t with
  | nil => exact Or.inl ⟨rfl, rfl⟩
  | node h' k v l r ihl ihr =>
    cases hc : strcmp key k with
    | lt => simpa [aaValue, aaGet, hc] using ihl
    | eq =>
      obtain rfl := strcmp_eq_iff.1 hc
      exact Or.inr ⟨h', v, l, r, by simp [aaGet, hc], by simp [aaValue, aaGet, hc]⟩
    | gt => simpa [aaValue, aaGet, hc] using ihr

theorem aaHas_ne_zero (key : CStr) (t : AaItem) : aaHas key t ≠ 0 ↔ aaGet key t ≠ .nil := by
  induction t with
  | nil => simp [aaHas, aaGet]
  | node h' k v l r ihl ihr =>
    cases hc : strcmp key k with
    | lt => simp [aaHas, aaGet, hc, ← ihl]
    | eq => simp [aaHas, aaGet, hc]
    | gt => simp [aaHas, aaGet, hc, ← ihr]

theorem aaValue_aaPut {t : AaItem} (h : Sorted strcmp (entries t)) (key value other : CStr) :
    aaValue other (aaPut t key value) = if other = key then some value else aaValue other t := by
  have hs : Sorted strcmp (entries (aaPut t key value)) := by
    rw [entries_aaPut h]
    exact sorted_put h
  rw [aaValue_eq_find _ hs, entries_aaPut h, find_put, aaValue_eq_find _ h]
  simp only [strcmp_eq_iff]

structure Valid (t : AaItem) : Prop where
  sorted : Sorted strcmp (entries t)
  avl : Avl t

theorem valid_nil : Valid .nil := ⟨List.Pairwise.nil, trivial⟩

theorem Valid.put {t : AaItem} (h : Valid t) (key value : CStr) : Valid (aaPut t key value) := by
  refine ⟨?_, avl_aaPut h.avl key value⟩
  rw [entries_aaPut h.sorted]
  exact sorted_put h.sorted

def putAll (t : AaItem) (puts : List (CStr × CStr)) : AaItem :=
  puts.foldl (fun t p => aaPut t p.1 p.2) t

theorem Valid.putAll {t : AaItem} (h : Valid t) (puts : List (CStr × CStr)) : Valid (putAll t puts) := by
  induction puts generalizing t with
  | nil => exact h
  | cons p puts ih => exact ih (h.put p.1 p.2)

theorem entries_putAll {t : AaItem} (h : Valid t) (puts : List (CStr × CStr)) :
    entries (putAll t puts) = puts.foldl (fun l p => SortedAssoc.put strcmp p.1 p.2 l) (entries t) := by
  induction puts generalizing t with
  | nil => rfl
  | cons p puts ih => rw [putAll, List.foldl_cons, ← putAll, ih (h.put p.1 p.2), entries_aaPut h.sorted,
      List.foldl_cons]

theorem aaValue_putAll {t : AaItem} (h : Valid t) (puts : List (CStr × CStr)) (key : CStr) :
    aaValue key (putAll t puts) = (find strcmp key puts.reverse).or (aaValue key t) := by
  rw [aaValue_eq_find _ (h.putAll puts).sorted, entries_putAll h, find_foldl_put, aaValue_eq_find _ h.sorted]

theorem aaMergeItems_eq_putAll (target source : AaItem) :
    aaMergeItems target source = putAll target (preorder source) := aaMergeItems_eq_foldl target source

/-- Reading the serialised pairs of a map back gives the map. -/
theorem find_preorder_reverse {t : AaItem} (h : Valid t) (key : CStr) :
    find strcmp key (preorder t).reverse = aaValue key t := by
  have hperm : (preorder t).reverse.Perm (entries t) := (List.reverse_perm _).trans (preorder_perm t)
  have hn : ((entries t).map Prod.fst).Nodup := nodup_of_sorted h.sorted
  rw [aaValue_eq_find _ h.sorted]
  exact (find_perm hperm.symm hn).symm

inductive MapCall
  | put (key value : CStr)
  | merge (source : AaItem)

def mapStep (root : AaItem) : MapCall → Option AaItem
  | .put key value => some (aaPut root key value)
  | .merge source => aaMerge root source

/-- The pairs a call puts: a merge puts every pair of its source. -/
def MapCall.puts : MapCall → List (CStr × CStr)
  | .put key value => [(key, value)]
  | .merge source => preorder source

theorem mapStep_eq_some {t t' : AaItem} {call : MapCall} (h : mapStep t call = some t') :
    t' = putAll t call.puts := by
  cases call with
  | put key value => exact (Option.some_inj.1 h).symm
  | merge source => rw [← (aaMerge_eq_some.1 h).2, aaMergeItems_eq_putAll, MapCall.puts]

theorem run_eq_putAll {t t' : AaItem} {calls : List MapCall} (h : Run (Steps mapStep) t calls t') :
    t' = putAll t (calls.flatMap MapCall.puts) := by
  induction h with
  | nil => rfl
  | snoc _ last ih =>
    rw [mapStep_eq_some last, ih, List.flatMap_append, putAll, putAll, putAll, List.foldl_append,
      List.flatMap_singleton]

theorem valid_of_run {t : AaItem} {calls : List MapCall} (h : Run (Steps mapStep) .nil calls t) : Valid t :=
  run_eq_putAll h ▸ valid_nil.putAll _

/-- The tree stays a balanced search tree with exact heights under every sequence of calls. -/
theorem header_map_avl {t : AaItem} {calls : List MapCall} (h : Run (Steps mapStep) .nil calls t) :
    SearchTree t ∧ HeightsStored t ∧ Balanced t :=
  have hv := valid_of_run h
  ⟨searchTree_iff_sorted.2 hv.sorted, hv.avl.heightsStored, hv.avl.balanced⟩

/-- Three rising keys need a rotation; the merge then overwrites one of them. -/
def sampleCalls : List MapCall :=
  [.put (lit "a") (lit "1"), .put (lit "b") (lit "2"), .put (lit "c") (lit "3"),
    .merge (aaItemCreate (lit "c") (lit "9"))]

def sampleMap : AaItem :=
  .node 2 (lit "b") (lit "2") (aaItemCreate (lit "a") (lit "1")) (aaItemCreate (lit "c") (lit "9"))

theorem run_sampleCalls : Run (Steps mapStep) .nil sampleCalls sampleMap := run_of_exec (by decide)

theorem header_map_avl_sample : SearchTree sampleMap ∧ HeightsStored sampleMap ∧ Balanced sampleMap :=
  header_map_avl run_sampleCalls

theorem find_eq_lookup (key : CStr) (puts : List (CStr × CStr)) : find strcmp key puts = puts.lookup key := by
  induction puts with
  | nil => rfl
  | cons p puts ih =>
    obtain ⟨k, v⟩ := p
    simp only [find, strcmp_eq_iff, List.lookup_cons, ih]
    by_cases hk : key = k
    · simp [hk]
    · rw [if_neg hk, beq_false_of_ne hk]

theorem aaValue_aaMerge {target source result : AaItem} (ht : Valid target) (hs : Valid source)
    (h : aaMerge target source = some result) (key : CStr) :
    aaValue key result = (aaValue key source).or (aaValue key target) := by
  rw [← (aaMerge_eq_some.1 h).2, aaMergeItems_eq_putAll, aaValue_putAll ht, find_preorder_reverse hs]

/-- Lookups see the last value put for a key, wherever the rotations moved it. -/
theorem header_map_lookup {t : AaItem} {calls : List MapCall} (h : Run (Steps mapStep) .nil calls t) (key : CStr) :
    (∀ value, (calls.flatMap MapCall.puts).reverse.lookup key = some value →
      ∃ height left right, aaGet key t = .node height key value left right) ∧
    (aaGet key t = .nil ↔ ∀ p ∈ calls.flatMap MapCall.puts, p.1 ≠ key) ∧
    (aaHas key t ≠ 0 ↔ aaGet key t ≠ .nil) ∧
    ((entries t).map Prod.fst).count key = (if aaGet key t = .nil then 0 else 1) ∧
    ∀ calls' source result, Run (Steps mapStep) .nil calls' source → aaMerge t source = some result →
      aaValue key result = (aaValue key source).or (aaValue key t) := by
  have hv := valid_of_run h
  have hvalue : aaValue key t = (calls.flatMap MapCall.puts).reverse.lookup key := by
    conv_lhs => rw [run_eq_putAll h]
    rw [aaValue_putAll valid_nil, find_eq_lookup, aaValue, aaGet, Option.or_none]
  have hnone : aaGet key t = .nil ↔ aaValue key t = none := by
    rcases aaGet_cases key t with ⟨hg, hn⟩ | ⟨_, _, _, _, hg, hs⟩
    · simp [hg, hn]
    · simp [hg, hs]
  refine ⟨fun value hlast => ?_, ?_, aaHas_ne_zero key t, ?_, fun calls' source result hs hm =>
    aaValue_aaMerge hv (valid_of_run hs) hm key⟩
  · rcases aaGet_cases key t with ⟨-, hn⟩ | ⟨height, v, left, right, hg, hs⟩
    · rw [← hvalue, hn] at hlast
      exact absurd hlast (by simp)
    · rw [← hvalue, hs, Option.some_inj] at hlast
      exact ⟨height, left, right, hlast ▸ hg⟩
  · rw [hnone, hvalue, ← find_eq_lookup, find_eq_none_iff]
    simp only [List.map_reverse, List.mem_reverse, List.mem_map, not_exists, not_and]
  · have hkeys : find strcmp key (entries t) = none ↔ key ∉ (entries t).map Prod.fst := find_eq_none_iff
    rw [← aaValue_eq_find _ hv.sorted, ← hnone] at hkeys
    split_ifs with hg
    · exact List.count_eq_zero.2 (hkeys.1 hg)
    · exact List.count_eq_one_of_mem (nodup_of_sorted hv.sorted) (by_contra fun hk => hg (hkeys.2 hk))

theorem header_map_lookup_sample :
    ∃ height left right, aaGet (lit "c") sampleMap = .node height (lit "c") (lit "9") left right :=
  (header_map_lookup run_sampleCalls (lit "c")).1 (lit "9") (by decide)

end StompBroker.HeaderMap
