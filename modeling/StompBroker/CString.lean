import Mathlib.Tactic
import Mathlib.Data.List.Basic

/-! C strings and the parts of string.h and stdlib.h that work on them.
A string is the list of its bytes before the terminating NUL, so a pointer into a
string is the suffix that starts there and a position is an offset from its start. -/
namespace StompBroker.CString

abbrev CStr := List UInt8

def lit (s : String) : CStr := s.toList.map fun c => c.toNat.toUInt8

abbrev nl : UInt8 := 10
abbrev cr : UInt8 := 13
abbrev colon : UInt8 := 58
abbrev star : UInt8 := 42

/-- Offset of the first occurrence of a byte, `none` for a null result. -/
def strchr (s : CStr) (c : UInt8) : Option ℕ := s.findIdx? (· == c)

/-- `strncmp(a, b, n) == 0`. -/
def strncmpEq (a b : CStr) (n : ℕ) : Bool := a.take n == b.take n

def strcmp : CStr → CStr → Ordering
  | [], [] => .eq
  | [], _ :: _ => .lt
  | _ :: _, [] => .gt
  | x :: xs, y :: ys => (compare x y).then (strcmp xs ys)

def strstr (s needle : CStr) : Option ℕ :=
  (List.range (s.length + 1)).find? fun i => needle.isPrefixOf (s.drop i)

/-- `tolower` on the ASCII range. -/
def toLower (c : UInt8) : UInt8 := if 65 ≤ c ∧ c ≤ 90 then c + 32 else c

/-- `strncasecmp(a, b, n) == 0`. -/
def strncasecmpEq (a b : CStr) (n : ℕ) : Bool :=
  (a.take n).map toLower == (b.take n).map toLower

/-- The `%u` conversion of a natural number. -/
def decimal (n : ℕ) : CStr := (Nat.toDigits 10 n).map fun c => c.toNat.toUInt8

/-- The `%d` conversion of an integer. -/
def decimalInt (z : ℤ) : CStr := if z < 0 then lit "-" ++ decimal z.natAbs else decimal z.natAbs

def isDigit (c : UInt8) : Bool := 48 ≤ c ∧ c ≤ 57

def isSpace (c : UInt8) : Bool := (9 ≤ c ∧ c ≤ 13) ∨ c = 32

def digitsValue (digits : CStr) : ℕ := digits.foldl (fun v d => 10 * v + (d.toNat - 48)) 0

/-- `sscanf(s, "%d")`: `none` when no digit follows, and then nothing is stored. The number is
read as a long, which saturates, and its low half is stored. -/
def sscanfInt (s : CStr) : Option (BitVec 32) :=
  let s := s.dropWhile isSpace
  let negative := s.head? = some 45
  let s := if negative ∨ s.head? = some 43 then s.tail else s
  let digits := s.takeWhile isDigit
  if digits = [] then none
  else
    let v : ℤ := if negative then -digitsValue digits else digitsValue digits
    some (BitVec.ofInt 32 (max (-2 ^ 63) (min v (2 ^ 63 - 1))))

/-- `strtok` on one text: leading separators are skipped; a token and the text behind it. -/
def strtok (s : CStr) (separator : UInt8) : Option (CStr × CStr) :=
  let s := s.dropWhile (· == separator)
  if s = [] then none
  else some (s.takeWhile (· != separator), (s.dropWhile (· != separator)).drop 1)

/-- `realloc` with an exit on failure. A null pointer is `none`; shrinking an allocated
block to size zero frees it and yields null, which is the failing case. -/
def erealloc (ptr : Option (List UInt8)) (size : ℕ) : Option (List UInt8) :=
  match ptr, size with
  | some _, 0 => none
  | some block, n => some (block.take n ++ List.replicate (n - block.length) 0)
  | none, n => some (List.replicate n 0)

theorem strchr_eq_none {s : CStr} {c : UInt8} : strchr s c = none ↔ c ∉ s := by
  rw [strchr, List.findIdx?_eq_none_iff]
  exact ⟨fun h hc => by simpa using h c hc, fun h b hb => beq_eq_false_iff_ne.2 fun he => h (he ▸ hb)⟩

theorem strchr_append {a : CStr} {c : UInt8} (h : c ∉ a) (b : CStr) :
    strchr (a ++ b) c = (strchr b c).map (· + a.length) := by
  have ha : a.findIdx? (· == c) = none := strchr_eq_none.2 h
  rw [strchr, List.findIdx?_append, ha, Option.none_or]
  rfl

theorem strchr_append_cons {a : CStr} {c : UInt8} (h : c ∉ a) (b : CStr) :
    strchr (a ++ c :: b) c = some a.length := by
  rw [strchr_append h]
  simp [strchr, List.findIdx?_cons]

theorem not_mem_take_of_strchr {s : CStr} {c : UInt8} {i : ℕ} (h : strchr s c = some i) :
    i < s.length ∧ c ∉ s.take i := by
  obtain ⟨hi, -, hbefore⟩ := List.findIdx?_eq_some_iff_getElem.1 h
  refine ⟨hi, fun hc => ?_⟩
  obtain ⟨j, hj, hcj⟩ := List.mem_take_iff_getElem.1 hc
  exact hbefore j (by omega) (by simp [hcj])

theorem toNat_digit {c : Char} (h : c.isDigit) : c.toNat.toUInt8.toNat = c.toNat ∧ 48 ≤ c.toNat ∧ c.toNat ≤ 57 := by
  have hdigit : 48 ≤ c.toNat ∧ c.toNat ≤ 57 := Char.isDigit_iff_toNat.1 h
  exact ⟨UInt8.toNat_ofNat_of_lt' (by rw [UInt8.size]; omega), hdigit⟩

theorem isDigit_of_mem_decimal {n : ℕ} {c : UInt8} (h : c ∈ decimal n) : isDigit c = true := by
  obtain ⟨d, hd, rfl⟩ := List.mem_map.1 h
  obtain ⟨heq, hlow, hhigh⟩ := toNat_digit (Nat.isDigit_of_mem_toDigits (by omega) (by omega) hd)
  simp only [isDigit, UInt8.le_iff_toNat_le, heq, decide_eq_true_eq]
  exact ⟨hlow, hhigh⟩

theorem decimal_ne_nil (n : ℕ) : decimal n ≠ [] := by
  simp [decimal, Nat.toDigits_ne_nil]

theorem digitsValue_decimal (n : ℕ) : digitsValue (decimal n) = n := by
  have hfold : ∀ (cs : List Char) (v : ℕ), (∀ c ∈ cs, c.isDigit) →
      (cs.map fun c => c.toNat.toUInt8).foldl (fun v d => 10 * v + (d.toNat - 48)) v = Nat.ofDigitChars 10 cs v := by
    intro cs
    induction cs with
    | nil => exact fun v _ => rfl
    | cons c cs ih =>
      intro v h
      rw [List.map_cons, List.foldl_cons, (toNat_digit (h c List.mem_cons_self)).1,
        ih _ fun d hd => h d (List.mem_cons_of_mem c hd), Nat.ofDigitChars_cons]
      rfl
  rw [digitsValue, decimal, hfold _ 0 fun c hc => Nat.isDigit_of_mem_toDigits (by omega) (by omega) hc,
    Nat.ofDigitChars_ten_toDigits]

theorem decimalInt_natCast (n : ℕ) : decimalInt n = decimal n := by simp [decimalInt]

theorem decimal_injective : Function.Injective decimal := fun a b h => by
  rw [← digitsValue_decimal a, h, digitsValue_decimal]

theorem decimalInt_injective : Function.Injective decimalInt := by
  -- a text with a sign differs from every text of digits in its first byte
  have hsign : ∀ a b : ℕ, lit "-" ++ decimal a ≠ decimal b := by
    intro a b h
    have hmem : (45 : UInt8) ∈ decimal b := h ▸ List.mem_append_left _ (by decide)
    exact absurd (isDigit_of_mem_decimal hmem) (by decide)
  intro a b h
  unfold decimalInt at h
  split_ifs at h with ha hb hb
  · have := decimal_injective (List.append_cancel_left h)
    omega
  · exact absurd h (hsign _ _)
  · exact absurd h.symm (hsign _ _)
  · have := decimal_injective h
    omega

theorem erealloc_grow (ptr : Option (List UInt8)) {n : ℕ} (h : 0 < n) :
    erealloc ptr ((ptr.getD []).length + n) = some (ptr.getD [] ++ List.replicate n 0) := by
  cases ptr with
  | none => simp [erealloc]
  | some block =>
    obtain ⟨k, hk⟩ : ∃ k, block.length + n = k + 1 := ⟨block.length + n - 1, by omega⟩
    simp only [Option.getD_some, hk, erealloc]
    rw [← hk, List.take_of_length_le (by omega), Nat.add_sub_cancel_left]

theorem erealloc_same {block : List UInt8} (h : block ≠ []) :
    erealloc (some block) block.length = some block := by
  cases block with
  | nil => exact absurd rfl h
  | cons b bs => simp [erealloc]

end StompBroker.CString
