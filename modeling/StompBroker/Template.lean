import Mathlib.Tactic

/-! Templates with conversions, and the room that a filled one takes. -/
namespace StompBroker.Template
variable {α : Type*} [DecidableEq α]

/-- A conversion is the mark and the letter behind it; each takes the next argument. -/
def fill (mark : α) : List α → List (List α) → List α
  | [], _ => []
  | [c], _ => [c]
  | c :: letter :: template, args =>
      if c = mark then args.headD [] ++ fill mark template args.tail else c :: fill mark (letter :: template) args

def conversions (mark : α) : List α → ℕ
  | [] => 0
  | [_] => 0
  | c :: letter :: template => if c = mark then conversions mark template + 1 else conversions mark (letter :: template)

variable {mark letter : α} {front back : List α}

theorem two_mul_conversions_le (mark : α) (template : List α) : 2 * conversions mark template ≤ template.length := by
  fun_induction conversions mark template with
  | case1 => exact Nat.zero_le _
  | case2 => exact Nat.zero_le _
  | case3 letter template ih =>
    simp only [List.length_cons]
    omega
  | case4 c letter template hc ih =>
    simp only [List.length_cons] at ih ⊢
    omega

theorem length_fill (template : List α) (args : List (List α)) (hargs : args.length = conversions mark template) :
    (fill mark template args).length + 2 * args.length = template.length + (args.map List.length).sum := by
  fun_induction fill mark template args with
  | case1 args =>
    rw [List.length_eq_zero_iff.1 hargs]
    rfl
  | case2 args c =>
    rw [List.length_eq_zero_iff.1 hargs]
    rfl
  | case3 letter template args ih =>
    rw [conversions, if_pos rfl] at hargs
    cases args with
    | nil => cases hargs
    | cons arg args =>
      have hrest := ih (Nat.succ_injective hargs)
      simp only [List.headD_cons, List.tail_cons, List.length_append, List.length_cons, List.map_cons, List.sum_cons] at hrest ⊢
      omega
  | case4 c letter template args hc ih =>
    rw [conversions, if_neg hc] at hargs
    have hrest := ih hargs
    simp only [List.length_cons] at hrest ⊢
    omega

theorem fill_of_notMem (h : mark ∉ front) (args : List (List α)) : fill mark front args = front := by
  fun_induction fill mark front args with
  | case1 | case2 => rfl
  | case3 letter template args ih => exact absurd List.mem_cons_self h
  | case4 c letter template args hc ih => rw [ih fun hm => h (List.mem_cons_of_mem c hm)]

theorem fill_append (h : mark ∉ front) (arg : List α) (args : List (List α)) :
    fill mark (front ++ mark :: letter :: back) (arg :: args) = front ++ (arg ++ fill mark back args) := by
  induction front with
  | nil => simp [fill]
  | cons c front ih =>
    have hc : c ≠ mark := fun hc => h (hc ▸ List.mem_cons_self)
    have hrest := ih fun hm => h (List.mem_cons_of_mem c hm)
    cases front with
    | nil =>
      rw [List.nil_append] at hrest
      simp [fill, hc]
    | cons d front =>
      rw [List.cons_append, List.cons_append, fill, if_neg hc]
      exact congrArg (c :: ·) hrest

theorem fill_one (hfront : mark ∉ front) (hback : mark ∉ back) (arg : List α) :
    fill mark (front ++ mark :: letter :: back) [arg] = front ++ (arg ++ back) := by
  rw [fill_append hfront, fill_of_notMem hback]

theorem fill_two {middle : List α} {letter' : α} (hfront : mark ∉ front) (hmiddle : mark ∉ middle) (hback : mark ∉ back)
    (arg arg' : List α) :
    fill mark (front ++ mark :: letter :: (middle ++ mark :: letter' :: back)) [arg, arg'] =
      front ++ (arg ++ (middle ++ (arg' ++ back))) := by
  rw [fill_append hfront, fill_one hmiddle hback]

end StompBroker.Template
