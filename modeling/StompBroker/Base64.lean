import StompBroker.CString

/-! Base64 texts. The encoder stops where the output array ends; the decoder reports whether it read
the whole text. -/
namespace StompBroker.Base64
open CString

abbrev pad : UInt8 := 61

def b64str : CStr := lit "ABCDEFGHIJKLMNOPQRSTUVWXYZabcdefghijklmnopqrstuvwxyz0123456789+/"

/-- `b64str[x & 0x3f]`. -/
def b64char (x : ℕ) : UInt8 := b64str.getD (x &&& 0x3f) 0

/-- The four characters of a round of the encoder; the second and third byte may be missing. -/
def quartet (in0 : UInt8) (in1 in2 : Option UInt8) : List UInt8 :=
  [b64char (in0.toNat >>> 2),
    b64char ((in0.toNat <<< 4) + match in1 with | some b => b.toNat >>> 4 | none => 0),
    match in1 with
    | some b => b64char ((b.toNat <<< 2) + match in2 with | some c => c.toNat >>> 6 | none => 0)
    | none => pad,
    match in2 with
    | some c => b64char c.toNat
    | none => pad]

/-- `*out++ = c; if (!--outlen) break;` for each character. -/
def writeOut : List UInt8 → ℕ → (ℕ → List UInt8) → List UInt8
  | [], outlen, next => next outlen
  | c :: cs, outlen, next => c :: if outlen - 1 = 0 then [] else writeOut cs (outlen - 1) next

/-- What is written to an output array of the given length, a terminating zero included. -/
def base64Encode : List UInt8 → ℕ → List UInt8
  | [], outlen => if outlen = 0 then [] else [0]
  | [a], outlen =>
      if outlen = 0 then [] else writeOut (quartet a none none) outlen fun outlen => if outlen = 0 then [] else [0]
  | [a, b], outlen =>
      if outlen = 0 then [] else writeOut (quartet a (some b) none) outlen fun outlen => if outlen = 0 then [] else [0]
  | a :: b :: c :: input, outlen =>
      if outlen = 0 then [] else writeOut (quartet a (some b) (some c)) outlen (base64Encode input)

/-- `BASE64_LENGTH` in 64 bits. -/
def base64Length (inlen : ℕ) : ℕ := (inlen + 2) % 2 ^ 64 / 3 * 4 % 2 ^ 64

/-- The array and the length of the text; no array when the length overflows. -/
def base64EncodeAlloc (input : List UInt8) : Option (List UInt8) × ℕ :=
  let outlen := (1 + base64Length input.length) % 2 ^ 64
  if input.length > outlen then (none, 0) else (some (base64Encode input outlen), outlen - 1)

def b64 (c : UInt8) : ℤ :=
  match b64str.findIdx? (· == c) with
  | some i => i
  | none => -1

def isbase64 (ch : UInt8) : Bool := 0 ≤ b64 ch

def store (byte outleft : ℕ) (next : ℕ → List UInt8 × Bool) : List UInt8 × Bool :=
  if outleft = 0 then next 0
  else
    let (bytes, ok) := next (outleft - 1)
    (UInt8.ofNat byte :: bytes, ok)

def base64Decode : List UInt8 → ℕ → List UInt8 × Bool
  | [], _ => ([], true)
  | [_], _ => ([], false)
  | a :: b :: input, outleft =>
      if !isbase64 a || !isbase64 b then ([], false)
      else store (((b64 a).toNat <<< 2) ||| ((b64 b).toNat >>> 4)) outleft fun outleft =>
        match input with
        | [] => ([], false)
        | c :: input =>
            if c = pad then ([], input == [pad])
            else if !isbase64 c then ([], false)
            else store ((((b64 b).toNat <<< 4) &&& 0xf0) ||| ((b64 c).toNat >>> 2)) outleft fun outleft =>
              match input with
              | [] => ([], false)
              | d :: input =>
                  if d = pad then ([], input == [])
                  else if !isbase64 d then ([], false)
                  else store ((((b64 c).toNat <<< 6) &&& 0xc0) ||| (b64 d).toNat) outleft (base64Decode input)

/-- `none` for a text that is no base64 text. -/
def base64DecodeAlloc (input : List UInt8) : Option (List UInt8) :=
  let (bytes, ok) := base64Decode input (3 * (input.length / 4) + 2)
  if ok then some bytes else none

def digits (group : ℕ) : List UInt8 :=
  [b64char (group / 2 ^ 18), b64char (group / 2 ^ 12), b64char (group / 2 ^ 6), b64char group]

def encoded : List UInt8 → List UInt8
  | [] => []
  | [a] => (digits (a.toNat * 2 ^ 16)).take 2 ++ [pad, pad]
  | [a, b] => (digits (a.toNat * 2 ^ 16 + b.toNat * 2 ^ 8)).take 3 ++ [pad]
  | a :: b :: c :: input => digits (a.toNat * 2 ^ 16 + b.toNat * 2 ^ 8 + c.toNat) ++ encoded input

theorem b64char_congr {x y : ℕ} (h : x % 64 = y % 64) : b64char x = b64char y := by
  have hand : ∀ n, n &&& 0x3f = n % 64 := fun n => Nat.and_two_pow_sub_one_eq_mod n 6
  rw [b64char, b64char, hand, hand, h]

theorem b64_alphabet : ∀ i < 64, b64 (b64char i) = i ∧ b64char i ≠ pad ∧ b64char i ≠ 0 := by decide

theorem b64_b64char (x : ℕ) : b64 (b64char x) = ((x % 64 : ℕ) : ℤ) := by
  rw [b64char_congr (Nat.mod_mod x 64).symm]
  exact (b64_alphabet _ (Nat.mod_lt x (by decide))).1

theorem b64char_ne_pad (x : ℕ) : b64char x ≠ pad := by
  rw [b64char_congr (Nat.mod_mod x 64).symm]
  exact (b64_alphabet _ (Nat.mod_lt x (by decide))).2.1

theorem b64char_ne_zero (x : ℕ) : b64char x ≠ 0 := by
  rw [b64char_congr (Nat.mod_mod x 64).symm]
  exact (b64_alphabet _ (Nat.mod_lt x (by decide))).2.2

@[simp] theorem isbase64_b64char (x : ℕ) : isbase64 (b64char x) = true := by
  rw [isbase64, b64_b64char]
  exact decide_eq_true (Int.natCast_nonneg _)

@[simp] theorem toNat_b64_b64char (x : ℕ) : (b64 (b64char x)).toNat = x % 64 := by
  rw [b64_b64char, Int.toNat_natCast]

theorem quartet_full (a b c : UInt8) :
    quartet a (some b) (some c) = digits (a.toNat * 2 ^ 16 + b.toNat * 2 ^ 8 + c.toNat) := by
  have hb := b.toNat_lt
  have hc := c.toNat_lt
  simp only [quartet, digits, Nat.shiftRight_eq_div_pow, Nat.shiftLeft_eq, List.cons.injEq, and_true]
  refine ⟨?_, ?_, ?_, ?_⟩ <;> apply b64char_congr <;> omega

theorem quartet_two (a b : UInt8) :
    quartet a (some b) none = (digits (a.toNat * 2 ^ 16 + b.toNat * 2 ^ 8)).take 3 ++ [pad] := by
  have hb := b.toNat_lt
  simp only [quartet, digits, Nat.shiftRight_eq_div_pow, Nat.shiftLeft_eq, List.take_succ_cons, List.take_zero,
    List.cons_append, List.nil_append, List.cons.injEq, and_true]
  refine ⟨?_, ?_, ?_⟩ <;> apply b64char_congr <;> omega

theorem quartet_one (a : UInt8) : quartet a none none = (digits (a.toNat * 2 ^ 16)).take 2 ++ [pad, pad] := by
  simp only [quartet, digits, Nat.shiftRight_eq_div_pow, Nat.shiftLeft_eq, List.take_succ_cons, List.take_zero,
    List.cons_append, List.nil_append, List.cons.injEq, and_true]
  refine ⟨?_, ?_⟩ <;> apply b64char_congr <;> omega

theorem writeOut_take {cs rest : List UInt8} {outlen : ℕ} {next : ℕ → List UInt8} (h : ∀ k, next k = rest.take k)
    (hlen : outlen ≠ 0) : writeOut cs outlen next = (cs ++ rest).take outlen := by
  induction cs generalizing outlen with
  | nil => exact h outlen
  | cons c cs ih =>
    obtain ⟨k, rfl⟩ := Nat.exists_eq_succ_of_ne_zero hlen
    rw [writeOut, List.cons_append, List.take_succ_cons, Nat.succ_sub_one]
    split_ifs with hk
    · rw [hk, List.take_zero]
    · rw [ih hk]

theorem base64Encode_eq (input : List UInt8) (outlen : ℕ) :
    base64Encode input outlen = (encoded input ++ [0]).take outlen := by
  have hzero : ∀ k, (if k = 0 then [] else [0]) = ([0] : List UInt8).take k := by
    intro k
    split_ifs with hk
    · rw [hk, List.take_zero]
    · rw [List.take_of_length_le (by simpa using Nat.one_le_iff_ne_zero.2 hk)]
  induction input using encoded.induct generalizing outlen with
  | case1 => exact hzero outlen
  | case2 a =>
    rw [base64Encode, encoded, quartet_one]
    split_ifs with hlen
    · rw [hlen, List.take_zero]
    · exact writeOut_take hzero hlen
  | case3 a b =>
    rw [base64Encode, encoded, quartet_two]
    split_ifs with hlen
    · rw [hlen, List.take_zero]
    · exact writeOut_take hzero hlen
  | case4 a b c input ih =>
    rw [base64Encode, encoded, quartet_full, List.append_assoc]
    split_ifs with hlen
    · rw [hlen, List.take_zero]
    · exact writeOut_take ih hlen

theorem length_encoded (input : List UInt8) : (encoded input).length = (input.length + 2) / 3 * 4 := by
  induction input using encoded.induct with
  | case1 => rfl
  | case2 a => simp [encoded, digits]
  | case3 a b => simp [encoded, digits]
  | case4 a b c input ih =>
    rw [encoded, List.length_append, ih]
    simp only [digits, List.length_cons, List.length_nil]
    omega

theorem encoded_ne_zero (input : List UInt8) : ∀ c ∈ encoded input, c ≠ 0 := by
  have hpad : pad ≠ 0 := by decide
  induction input using encoded.induct with
  | case1 => simp [encoded]
  | case2 a => simp [encoded, digits, b64char_ne_zero, hpad]
  | case3 a b => simp [encoded, digits, b64char_ne_zero, hpad]
  | case4 a b c input ih =>
    intro x hx
    rw [encoded] at hx
    rcases List.mem_append.1 hx with hx | hx
    · simp only [digits, List.mem_cons, List.not_mem_nil, or_false] at hx
      rcases hx with rfl | rfl | rfl | rfl <;> exact b64char_ne_zero _
    · exact ih x hx

theorem base64Length_overflow {inlen : ℕ} (h : inlen < 2 ^ 64) :
    (inlen > (1 + base64Length inlen) % 2 ^ 64 ↔ 2 ^ 64 ≤ 1 + (inlen + 2) / 3 * 4) ∧
      (1 + (inlen + 2) / 3 * 4 < 2 ^ 64 → base64Length inlen = (inlen + 2) / 3 * 4) := by
  rw [base64Length]
  by_cases hinlen : inlen + 2 < 2 ^ 64
  · rw [Nat.mod_eq_of_lt hinlen]
    by_cases hfits : (inlen + 2) / 3 * 4 < 2 ^ 64
    · rw [Nat.mod_eq_of_lt hfits, Nat.mod_eq_of_lt (by omega)]
      exact ⟨by omega, fun _ => rfl⟩
    · have hwrap : (inlen + 2) / 3 * 4 % 2 ^ 64 = (inlen + 2) / 3 * 4 - 2 ^ 64 := by
        rw [Nat.mod_eq_sub_mod (not_lt.1 hfits), Nat.mod_eq_of_lt (by omega)]
      rw [hwrap, Nat.mod_eq_of_lt (by omega)]
      exact ⟨by omega, fun hlt => by omega⟩
  · have hwrap : (inlen + 2) % 2 ^ 64 / 3 * 4 % 2 ^ 64 = 0 := by
      rw [Nat.mod_eq_sub_mod (not_lt.1 hinlen), Nat.mod_eq_of_lt (by omega)]
      omega
    rw [hwrap]
    exact ⟨by omega, fun hlt => by omega⟩

section Bytes
variable {u v : ℕ}

theorem firstByte_eq (hv : v < 64) : u <<< 2 ||| v >>> 4 = u * 4 + v / 16 := by
  rw [← Nat.shiftLeft_add_eq_or_of_lt (by rw [Nat.shiftRight_eq_div_pow]; omega), Nat.shiftLeft_eq,
    Nat.shiftRight_eq_div_pow]

theorem and_masks : ∀ u < 64, (u <<< 4) &&& 0xf0 = (u % 16) <<< 4 ∧ (u <<< 6) &&& 0xc0 = (u % 4) <<< 6 := by decide

theorem secondByte_eq (hu : u < 64) (hv : v < 64) : ((u <<< 4) &&& 0xf0) ||| v >>> 2 = u % 16 * 16 + v / 4 := by
  rw [(and_masks u hu).1, ← Nat.shiftLeft_add_eq_or_of_lt (by rw [Nat.shiftRight_eq_div_pow]; omega), Nat.shiftLeft_eq,
    Nat.shiftRight_eq_div_pow]

theorem thirdByte_eq (hu : u < 64) (hv : v < 64) : ((u <<< 6) &&& 0xc0) ||| v = u % 4 * 64 + v := by
  rw [(and_masks u hu).2, ← Nat.shiftLeft_add_eq_or_of_lt (by omega), Nat.shiftLeft_eq]

theorem ofNat_eq_of_mod {n : ℕ} {b : UInt8} (h : n % 256 = b.toNat) : UInt8.ofNat n = b :=
  UInt8.toNat_inj.1 (by simpa using h)

end Bytes

theorem store_take {byte outleft : ℕ} {next : ℕ → List UInt8 × Bool} {rest : List UInt8} {ok : Bool}
    (h : ∀ k, next k = (rest.take k, ok)) : store byte outleft next = ((UInt8.ofNat byte :: rest).take outleft, ok) := by
  cases outleft with
  | zero => rw [store, if_pos rfl, h, List.take_zero, List.take_zero]
  | succ k => rw [store, if_neg (Nat.succ_ne_zero k), Nat.succ_sub_one, h, List.take_succ_cons]

/-- Decoding takes every byte sequence back. -/
theorem base64Decode_encoded (input : List UInt8) (outleft : ℕ) :
    base64Decode (encoded input) outleft = (input.take outleft, true) := by
  have hlt : ∀ n, n % 64 < 64 := fun n => Nat.mod_lt n (by decide)
  have hnone : ∀ k, (([] : List UInt8), true) = (([] : List UInt8).take k, true) := fun k => by rw [List.take_nil]
  induction input using encoded.induct generalizing outleft with
  | case1 => rw [encoded, base64Decode, List.take_nil]
  | case2 a =>
    simp only [encoded, digits, List.take_succ_cons, List.take_zero, List.cons_append, List.nil_append, base64Decode,
      isbase64_b64char, Bool.not_true, Bool.or_self, Bool.false_eq_true, if_false, if_true, toNat_b64_b64char, beq_self_eq_true]
    rw [store_take hnone, firstByte_eq (hlt _)]
    congr 3
    exact ofNat_eq_of_mod (by have := a.toNat_lt; omega)
  | case3 a b =>
    have ha := a.toNat_lt
    have hb := b.toNat_lt
    simp only [encoded, digits, List.take_succ_cons, List.take_zero, List.cons_append, List.nil_append, base64Decode,
      isbase64_b64char, Bool.not_true, Bool.or_self, Bool.false_eq_true, if_false, if_true, toNat_b64_b64char, beq_self_eq_true,
      b64char_ne_pad]
    rw [store_take fun k => store_take hnone, firstByte_eq (hlt _), secondByte_eq (hlt _) (hlt _)]
    congr 3
    · exact ofNat_eq_of_mod (by omega)
    · congr 1
      exact ofNat_eq_of_mod (by omega)
  | case4 a b c input ih =>
    have ha := a.toNat_lt
    have hb := b.toNat_lt
    have hc := c.toNat_lt
    simp only [encoded, digits, List.cons_append, List.nil_append, base64Decode, isbase64_b64char, Bool.not_true, Bool.or_self,
      Bool.false_eq_true, if_false, toNat_b64_b64char, b64char_ne_pad]
    rw [store_take fun k => store_take fun k => store_take ih, firstByte_eq (hlt _), secondByte_eq (hlt _) (hlt _),
      thirdByte_eq (hlt _) (hlt _)]
    rw [@ofNat_eq_of_mod _ a (by omega), @ofNat_eq_of_mod _ b (by omega), @ofNat_eq_of_mod _ c (by omega)]

/-- The allocated array holds the text of the standard and a zero, unless the length overflows; the decoder takes
the text back. -/
theorem base64EncodeAlloc_eq {input : List UInt8} (h : input.length < 2 ^ 64) :
    base64EncodeAlloc input = (if (encoded input).length + 1 < 2 ^ 64 then (some (encoded input ++ [0]), (encoded input).length)
      else (none, 0)) ∧ base64DecodeAlloc (encoded input) = some input := by
  obtain ⟨hover, hlength⟩ := base64Length_overflow h
  have hlen := length_encoded input
  constructor
  · rw [base64EncodeAlloc]
    by_cases hfits : (encoded input).length + 1 < 2 ^ 64
    · have hbase := hlength (by omega)
      simp only [if_neg (mt hover.1 (by omega)), if_pos hfits]
      rw [hbase, ← hlen, Nat.mod_eq_of_lt (by omega), base64Encode_eq, List.take_of_length_le (by simp [Nat.add_comm]),
        Nat.add_sub_cancel_left]
    · simp only [if_pos (hover.2 (by omega)), if_neg hfits]
  · have hroom : input.length ≤ 3 * ((encoded input).length / 4) + 2 := by omega
    rw [base64DecodeAlloc, base64Decode_encoded, List.take_of_length_le hroom]
    rfl

theorem base64EncodeAlloc_eq_hello : base64EncodeAlloc (lit "hello") = (some (lit "aGVsbG8=" ++ [0]), 8) ∧
    base64DecodeAlloc (lit "aGVsbG8=") = some (lit "hello") := by
  have henc : encoded (lit "hello") = lit "aGVsbG8=" := by decide
  have h := @base64EncodeAlloc_eq (lit "hello") (by decide)
  rw [henc] at h
  exact h

end StompBroker.Base64
