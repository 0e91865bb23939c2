import Mathlib.Tactic
import Mathlib.Data.List.Infix

/-! Reassembly of items from a stream of symbols that arrives in pieces. An item is written as a
non-empty word; what has arrived is the words of some items and a proper beginning of the next
word. -/
namespace StompBroker.Reassembly
variable {φ β : Type*} {enc : φ → List β}

def encodeAll (enc : φ → List β) (fs : List φ) : List β := fs.flatMap enc

@[simp] theorem encodeAll_nil : encodeAll enc [] = [] := rfl

@[simp] theorem encodeAll_cons (f : φ) (fs : List φ) :
    encodeAll enc (f :: fs) = enc f ++ encodeAll enc fs := rfl

@[simp] theorem encodeAll_append (fs gs : List φ) :
    encodeAll enc (fs ++ gs) = encodeAll enc fs ++ encodeAll enc gs := List.flatMap_append

theorem length_le_length_encodeAll (hne : ∀ f, enc f ≠ []) (fs : List φ) :
    fs.length ≤ (encodeAll enc fs).length := by
  induction fs with
  | nil => simp
  | cons f fs ih =>
    have := List.length_pos_iff.mpr (hne f)
    simp only [List.length_cons, encodeAll_cons, List.length_append]
    omega

/-- A rest that is not a whole word yet: empty, or a proper beginning of the next word. -/
def Pending (enc : φ → List β) (fs : List φ) (p : List β) : Prop :=
  p = [] ∨ ∃ f rest, fs = f :: rest ∧ p <+: enc f ∧ p ≠ enc f

/-- Every beginning of a stream splits into whole words and a rest. -/
theorem exists_split {fs : List φ} {p : List β} (h : p <+: encodeAll enc fs) :
    ∃ gs hs q, fs = gs ++ hs ∧ p = encodeAll enc gs ++ q ∧ Pending enc hs q := by
  induction fs generalizing p with
  | nil => exact ⟨[], [], [], rfl, by simpa using h, .inl rfl⟩
  | cons f fs ih =>
    rcases Nat.lt_or_ge p.length (enc f).length with hlt | hge
    · have hp : p <+: enc f := List.prefix_of_prefix_length_le h (List.prefix_append _ _) hlt.le
      exact ⟨[], f :: fs, p, rfl, rfl, .inr ⟨f, fs, rfl, hp, fun he => hlt.ne (congrArg _ he)⟩⟩
    · obtain ⟨p', rfl⟩ := List.prefix_of_prefix_length_le (List.prefix_append _ _) h hge
      rw [encodeAll_cons, List.prefix_append_right_inj] at h
      obtain ⟨gs, hs, q, rfl, rfl, hq⟩ := ih h
      exact ⟨f :: gs, hs, q, rfl, by simp, hq⟩

theorem Pending.eq_nil (hne : ∀ f, enc f ≠ []) {fs : List φ} {p : List β} (h : Pending enc fs p)
    (he : p = encodeAll enc fs) : fs = [] ∧ p = [] := by
  rcases h with rfl | ⟨f, rest, rfl, hp, hpe⟩
  · cases fs with
    | nil => exact ⟨rfl, rfl⟩
    | cons f fs =>
      rw [encodeAll_cons] at he
      exact absurd (List.append_eq_nil_iff.mp he.symm).1 (hne f)
  · exfalso
    have hle := hp.length_le
    rw [he, encodeAll_cons, List.length_append] at hle
    have hnil : encodeAll enc rest = [] := List.length_eq_zero_iff.mp (by omega)
    rw [encodeAll_cons, hnil, List.append_nil] at he
    exact hpe he

section Reading
variable {ψ : Type*} {ok : φ → Prop} {dec : φ → ψ} {parse : List β → Option (ψ × List β)}

/-- The parser takes one word off the front; what it has found does not depend on what follows. -/
structure Readable (ok : φ → Prop) (enc : φ → List β) (dec : φ → ψ) (parse : List β → Option (ψ × List β)) :
    Prop where
  nonempty : ∀ f, enc f ≠ []
  empty : parse [] = none
  whole : ∀ f r, ok f → parse (enc f ++ r) = some (dec f, r)
  settled : ∀ p q x r, parse p = some (x, r) → parse (p ++ q) = some (x, r ++ q)

def readWith (parse : List β → Option (ψ × List β)) : ℕ → List β → List ψ × List β
  | 0, bs => ([], bs)
  | fuel + 1, bs =>
      match parse bs with
      | none => ([], bs)
      | some (x, r) => (x :: (readWith parse fuel r).1, (readWith parse fuel r).2)

/-- The items of a stream and what is left of it; there are not more items than symbols. -/
def read (parse : List β → Option (ψ × List β)) (bs : List β) : List ψ × List β := readWith parse bs.length bs

theorem Readable.parse_eq_none (h : Readable ok enc dec parse) {hs : List φ} (hok : ∀ f ∈ hs, ok f) {q : List β}
    (hq : Pending enc hs q) : parse q = none := by
  rcases hq with rfl | ⟨f, rest, rfl, ⟨more, hmore⟩, hne⟩
  · exact h.empty
  · by_contra hsome
    obtain ⟨⟨x, r⟩, hx⟩ := Option.ne_none_iff_exists'.1 hsome
    have hlong := h.settled q more x r hx
    have hwhole := h.whole f [] (hok f List.mem_cons_self)
    rw [hmore, ← List.append_nil (enc f), hwhole, Option.some_inj, Prod.mk.injEq] at hlong
    have hnil : more = [] := (List.append_eq_nil_iff.1 hlong.2.symm).2
    rw [hnil, List.append_nil] at hmore
    exact hne hmore

theorem Readable.readWith_eq (h : Readable ok enc dec parse) {gs hs : List φ} (hok : ∀ f ∈ gs ++ hs, ok f) {q : List β}
    (hq : Pending enc hs q) {fuel : ℕ} (hf : gs.length ≤ fuel) :
    readWith parse fuel (encodeAll enc gs ++ q) = (gs.map dec, q) := by
  induction gs generalizing fuel with
  | nil =>
    cases fuel with
    | zero => rfl
    | succ fuel =>
      rw [encodeAll_nil, List.nil_append, readWith, h.parse_eq_none hok hq]
      rfl
  | cons g gs ih =>
    obtain ⟨fuel, rfl⟩ : ∃ k, fuel = k + 1 := ⟨fuel - 1, by simp at hf; omega⟩
    have hrest := @ih (fun f hm => hok f (List.mem_cons_of_mem g hm)) fuel (by simpa using hf)
    rw [encodeAll_cons, List.append_assoc, readWith, h.whole g _ (hok g List.mem_cons_self)]
    dsimp only
    rw [hrest, List.map_cons]

/-- The whole words of a stream are read and the rest is left. -/
theorem Readable.read_eq (h : Readable ok enc dec parse) {gs hs : List φ} (hok : ∀ f ∈ gs ++ hs, ok f) {q : List β}
    (hq : Pending enc hs q) : read parse (encodeAll enc gs ++ q) = (gs.map dec, q) := by
  refine h.readWith_eq hok hq ?_
  have := length_le_length_encodeAll h.nonempty gs
  rw [List.length_append]
  omega

end Reading

end StompBroker.Reassembly
