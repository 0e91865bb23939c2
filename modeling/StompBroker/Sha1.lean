import StompBroker.CString
import StompBroker.BlockHash

/-! The SHA-1 sum of the handshake. A context takes the message in pieces, byte by byte into one block;
the standard pads the whole message and compresses its blocks. -/
namespace StompBroker.Sha1
open BlockHash

abbrev Word := BitVec 32

structure Digest where
  a : Word
  b : Word
  c : Word
  d : Word
  e : Word
  deriving DecidableEq, Repr

structure SHA1Context where
  messageDigest : Digest
  lengthLow : Word
  lengthHigh : Word
  messageBlock : Vector UInt8 64
  messageBlockIndex : ℕ
  computed : Bool
  corrupted : Bool

def sha1CircularShift (bits : ℕ) (word : Word) : Word := (word <<< bits) ||| (word >>> (32 - bits))

def initialDigest : Digest := ⟨0x67452301, 0xEFCDAB89, 0x98BADCFE, 0x10325476, 0xC3D2E1F0⟩

def sha1Reset (context : SHA1Context) : SHA1Context :=
  { context with
    lengthLow := 0
    lengthHigh := 0
    messageBlockIndex := 0
    messageDigest := initialDigest
    computed := false
    corrupted := false }

def blockWord (block : List UInt8) (t : ℕ) : Word :=
  ((block.getD (t * 4) 0).toBitVec.setWidth 32 <<< 24) ||| ((block.getD (t * 4 + 1) 0).toBitVec.setWidth 32 <<< 16) |||
    ((block.getD (t * 4 + 2) 0).toBitVec.setWidth 32 <<< 8) ||| (block.getD (t * 4 + 3) 0).toBitVec.setWidth 32

/-- The array W after so many rounds of its second loop. -/
def wordSequence (block : List UInt8) : ℕ → List Word
  | 0 => (List.range 16).map (blockWord block)
  | k + 1 =>
      let w := wordSequence block k
      let t := w.length
      w ++ [sha1CircularShift 1 (w.getD (t - 3) 0 ^^^ w.getD (t - 8) 0 ^^^ w.getD (t - 14) 0 ^^^ w.getD (t - 16) 0)]

/-- The body of the four loops, which differ in the function of B, C and D and in the constant. -/
def sha1Round (f : Word → Word → Word → Word) (k : Word) (x : Digest) (w : Word) : Digest :=
  let temp := sha1CircularShift 5 x.a + f x.b x.c x.d + x.e + w + k
  ⟨temp, x.a, sha1CircularShift 30 x.b, x.c, x.d⟩

def processBlock (digest : Digest) (block : List UInt8) : Digest :=
  let w := wordSequence block 64
  let x := (w.take 20).foldl (sha1Round (fun b c d => (b &&& c) ||| (~~~b &&& d)) 0x5A827999) digest
  let x := ((w.drop 20).take 20).foldl (sha1Round (fun b c d => b ^^^ c ^^^ d) 0x6ED9EBA1) x
  let x := ((w.drop 40).take 20).foldl (sha1Round (fun b c d => (b &&& c) ||| (b &&& d) ||| (c &&& d)) 0x8F1BBCDC) x
  let x := ((w.drop 60).take 20).foldl (sha1Round (fun b c d => b ^^^ c ^^^ d) 0xCA62C1D6) x
  ⟨digest.a + x.a, digest.b + x.b, digest.c + x.c, digest.d + x.d, digest.e + x.e⟩

def sha1ProcessMessageBlock (context : SHA1Context) : SHA1Context :=
  { context with
    messageDigest := processBlock context.messageDigest context.messageBlock.toList
    messageBlockIndex := 0 }

/-- `context->Message_Block[context->Message_Block_Index++] = b`, `none` for a write behind the block. -/
def putByte (context : SHA1Context) (b : UInt8) : Option SHA1Context :=
  if h : context.messageBlockIndex < 64 then
    some { context with
      messageBlock := context.messageBlock.set context.messageBlockIndex b
      messageBlockIndex := context.messageBlockIndex + 1 }
  else none

/-- Eight more bits. The context is corrupted when both words of the length are used up. -/
def countByte (context : SHA1Context) : SHA1Context :=
  let low := context.lengthLow + 8
  if low = 0 then
    let high := context.lengthHigh + 1
    { context with lengthLow := low, lengthHigh := high, corrupted := if high = 0 then true else context.corrupted }
  else { context with lengthLow := low }

def inputLoop : List UInt8 → SHA1Context → Option SHA1Context
  | [], context => some context
  | b :: bytes, context =>
      if context.corrupted then some context
      else do
        let context ← putByte context b
        let context := countByte context
        inputLoop bytes (if context.messageBlockIndex = 64 then sha1ProcessMessageBlock context else context)

def sha1Input (context : SHA1Context) (messageArray : List UInt8) : Option SHA1Context :=
  if messageArray = [] then some context
  else if context.computed ∨ context.corrupted then some { context with corrupted := true }
  else inputLoop messageArray context

/-- `while (context->Message_Block_Index < upto)` a zero goes into the block. -/
def padZeros (upto : ℕ) (context : SHA1Context) : Option SHA1Context :=
  (List.replicate (upto - context.messageBlockIndex) 0).foldlM putByte context

/-- `(word >> shift) & 0xFF`. -/
def byteOf (word : Word) (shift : ℕ) : UInt8 := UInt8.ofNat ((word >>> shift) &&& 0xFF).toNat

def storeLength (context : SHA1Context) : SHA1Context :=
  let (high, low) := (context.lengthHigh, context.lengthLow)
  { context with messageBlock :=
      ((((((((context.messageBlock.set 56 (byteOf high 24)).set 57 (byteOf high 16)).set 58 (byteOf high 8)).set 59
        (byteOf high 0)).set 60 (byteOf low 24)).set 61 (byteOf low 16)).set 62 (byteOf low 8)).set 63 (byteOf low 0)) }

def sha1PadMessage (context : SHA1Context) : Option SHA1Context := do
  if context.messageBlockIndex > 55 then
    let context ← putByte context 0x80
    let context ← padZeros 64 context
    let context ← padZeros 56 (sha1ProcessMessageBlock context)
    return sha1ProcessMessageBlock (storeLength context)
  else
    let context ← putByte context 0x80
    let context ← padZeros 56 context
    return sha1ProcessMessageBlock (storeLength context)

def sha1Result (context : SHA1Context) : Option (SHA1Context × ℤ) :=
  if context.corrupted then some (context, 0)
  else if context.computed then some (context, 1)
  else (sha1PadMessage context).map fun context => ({ context with computed := true }, 1)

def sha1Sum (context : SHA1Context) (pieces : List (List UInt8)) : Option (SHA1Context × ℤ) := do
  let context ← pieces.foldlM sha1Input (sha1Reset context)
  sha1Result context

def ch (x y z : Word) : Word := (x &&& y) ^^^ (~~~x &&& z)

def parity (x y z : Word) : Word := x ^^^ y ^^^ z

def maj (x y z : Word) : Word := (x &&& y) ^^^ (x &&& z) ^^^ (y &&& z)

def roundFunction (t : ℕ) : Word → Word → Word → Word :=
  if t < 20 then ch else if t < 40 then parity else if t < 60 then maj else parity

def roundConstant (t : ℕ) : Word :=
  if t < 20 then 0x5A827999 else if t < 40 then 0x6ED9EBA1 else if t < 60 then 0x8F1BBCDC else 0xCA62C1D6

def messageWord (block : List UInt8) (t : ℕ) : Word :=
  BitVec.ofNat 32 ((List.range 4).foldl (fun v i => v * 256 + (block.getD (4 * t + i) 0).toNat) 0)

def schedule (block : List UInt8) (t : ℕ) : Word :=
  if t < 16 then messageWord block t
  else (schedule block (t - 3) ^^^ schedule block (t - 8) ^^^ schedule block (t - 14) ^^^ schedule block (t - 16)).rotateLeft 1
termination_by t

def round (block : List UInt8) (x : Digest) (t : ℕ) : Digest :=
  ⟨x.a.rotateLeft 5 + roundFunction t x.b x.c x.d + x.e + roundConstant t + schedule block t,
    x.a, x.b.rotateLeft 30, x.c, x.d⟩

def compress (h : Digest) (block : List UInt8) : Digest :=
  let x := (List.range 80).foldl (round block) h
  ⟨h.a + x.a, h.b + x.b, h.c + x.c, h.d + x.d, h.e + x.e⟩

def bigEndian (n : ℕ) (x : ℕ) : List UInt8 := (List.range n).map fun i => UInt8.ofNat (x / 256 ^ (n - 1 - i))

/-- One bit, zeros up to 448 modulo 512 bits, and the length in bits. -/
def padding (length : ℕ) : List UInt8 :=
  0x80 :: List.replicate ((119 - length % 64) % 64) 0 ++ bigEndian 8 (8 * length)

def sha1 (message : List UInt8) : Digest :=
  foldBlocks 64 compress initialDigest (message ++ padding message.length)

theorem circularShift_eq {bits : ℕ} (h : bits < 32) (word : Word) :
    sha1CircularShift bits word = word.rotateLeft bits := by
  rw [sha1CircularShift, BitVec.rotateLeft_def, Nat.mod_eq_of_lt h]

theorem bytes_or_eq {b0 b1 b2 b3 : ℕ} (h1 : b1 < 256) (h2 : b2 < 256) (h3 : b3 < 256) :
    b0 <<< 24 ||| b1 <<< 16 ||| b2 <<< 8 ||| b3 = ((b0 * 256 + b1) * 256 + b2) * 256 + b3 := by
  have hone : b0 <<< 24 ||| b1 <<< 16 = (b0 * 256 + b1) <<< 16 := by
    rw [← Nat.shiftLeft_add_eq_or_of_lt (by rw [Nat.shiftLeft_eq]; omega)]
    simp only [Nat.shiftLeft_eq]
    omega
  have htwo : (b0 * 256 + b1) <<< 16 ||| b2 <<< 8 = ((b0 * 256 + b1) * 256 + b2) <<< 8 := by
    rw [← Nat.shiftLeft_add_eq_or_of_lt (by rw [Nat.shiftLeft_eq]; omega)]
    simp only [Nat.shiftLeft_eq]
    omega
  rw [hone, htwo, ← Nat.shiftLeft_add_eq_or_of_lt (by omega), Nat.shiftLeft_eq]

theorem blockWord_eq (block : List UInt8) (t : ℕ) : blockWord block t = messageWord block t := by
  have hlt : ∀ i, (block.getD i 0).toNat < 256 := fun i => UInt8.toNat_lt _
  have hfold : (List.range 4).foldl (fun v i => v * 256 + (block.getD (4 * t + i) 0).toNat) 0 =
      (((block.getD (4 * t) 0).toNat * 256 + (block.getD (4 * t + 1) 0).toNat) * 256 + (block.getD (4 * t + 2) 0).toNat) * 256 +
        (block.getD (4 * t + 3) 0).toNat := by
    simp [List.range_succ]
  have hsmall : ∀ (b : UInt8) (k : ℕ), k ≤ 24 → (b.toBitVec.setWidth 32 <<< k).toNat = b.toNat <<< k := by
    intro b k hk
    have hb := b.toNat_lt
    have hpow : 2 ^ k ≤ 2 ^ 24 := Nat.pow_le_pow_right (by omega) hk
    have hle : b.toNat * 2 ^ k < 2 ^ 32 := by
      calc
        b.toNat * 2 ^ k ≤ 255 * 2 ^ 24 := Nat.mul_le_mul (by omega) hpow
        _ < 2 ^ 32 := by norm_num
    have hword : (b.toBitVec.setWidth 32).toNat = b.toNat := by
      rw [BitVec.toNat_setWidth, UInt8.toNat_toBitVec, Nat.mod_eq_of_lt (by omega)]
    rw [BitVec.toNat_shiftLeft, hword, Nat.mod_eq_of_lt]
    rwa [Nat.shiftLeft_eq]
  have hlast := hsmall (block.getD (4 * t + 3) 0) 0 (by omega)
  rw [BitVec.shiftLeft_zero, Nat.shiftLeft_zero] at hlast
  apply BitVec.eq_of_toNat_eq
  rw [messageWord, hfold, blockWord, BitVec.toNat_ofNat, Nat.mul_comm t 4]
  simp only [BitVec.toNat_or, hsmall _ 24 (by omega), hsmall _ 16 (by omega), hsmall _ 8 (by omega), hlast]
  rw [bytes_or_eq (hlt _) (hlt _) (hlt _), Nat.mod_eq_of_lt]
  have h0 := hlt (4 * t)
  have h1 := hlt (4 * t + 1)
  have h2 := hlt (4 * t + 2)
  have h3 := hlt (4 * t + 3)
  omega

theorem wordSequence_eq (block : List UInt8) (k : ℕ) :
    wordSequence block k = (List.range (16 + k)).map (schedule block) := by
  induction k with
  | zero =>
    refine List.map_congr_left fun t ht => ?_
    rw [schedule, if_pos (List.mem_range.1 ht), blockWord_eq]
  | succ k ih =>
    have hget : ∀ j, j < 16 + k → ((List.range (16 + k)).map (schedule block)).getD j 0 = schedule block j := by
      intro j hj
      simp [List.getD_eq_getElem?_getD, hj]
    have hlast : schedule block (16 + k) = (schedule block (16 + k - 3) ^^^ schedule block (16 + k - 8) ^^^
        schedule block (16 + k - 14) ^^^ schedule block (16 + k - 16)).rotateLeft 1 := by
      rw [schedule, if_neg (by omega)]
    rw [wordSequence, ih, ← Nat.add_assoc, List.range_succ, List.map_append, List.map_singleton, hlast]
    simp only [List.length_map, List.length_range]
    rw [circularShift_eq (by omega), hget _ (by omega), hget _ (by omega), hget _ (by omega), hget _ (by omega)]

theorem ch_eq (b c d : Word) : (b &&& c) ||| (~~~b &&& d) = ch b c d := by
  ext i hi
  simp only [ch, BitVec.getElem_or, BitVec.getElem_and, BitVec.getElem_not, BitVec.getElem_xor]
  cases b[i] <;> simp

theorem maj_eq (x y z : Word) : (x &&& y) ||| (x &&& z) ||| (y &&& z) = maj x y z := by
  ext i hi
  simp only [maj, BitVec.getElem_or, BitVec.getElem_and, BitVec.getElem_xor]
  cases x[i] <;> cases y[i] <;> simp

theorem foldl_sha1Round {f : Word → Word → Word → Word} {k : Word} {start : ℕ}
    (hf : ∀ t, start ≤ t → t < start + 20 →
    (∀ b c d, f b c d = roundFunction t b c d) ∧ k = roundConstant t) (block : List UInt8) (x : Digest) :
    ((List.range' start 20).map (schedule block)).foldl (sha1Round f k) x = (List.range' start 20).foldl (round block) x := by
  rw [List.foldl_map]
  refine List.foldl_ext _ _ _ fun x t ht => ?_
  obtain ⟨hge, hlt⟩ := List.mem_range'_1.1 ht
  obtain ⟨hfun, hconst⟩ := hf t hge hlt
  rw [sha1Round, round, circularShift_eq (by omega), circularShift_eq (by omega), hfun, hconst,
    BitVec.add_assoc _ (schedule block t), BitVec.add_comm (schedule block t), ← BitVec.add_assoc]

theorem processBlock_eq (digest : Digest) (block : List UInt8) : processBlock digest block = compress digest block := by
  have hall : List.range 80 = List.range' 0 20 ++ (List.range' 20 20 ++ (List.range' 40 20 ++ List.range' 60 20)) := by decide
  have hslice : ∀ k, ((wordSequence block 64).drop k).take 20 = (((List.range 80).drop k).take 20).map (schedule block) := by
    intro k
    rw [wordSequence_eq, List.map_take, List.map_drop]
  have hfirst : (wordSequence block 64).take 20 = (List.range' 0 20).map (schedule block) := hslice 0
  have h1 := @foldl_sha1Round (fun b c d => (b &&& c) ||| (~~~b &&& d)) 0x5A827999 0 (fun t h h' =>
    ⟨fun b c d => by rw [ch_eq, roundFunction, if_pos (by omega)], by rw [roundConstant, if_pos (by omega)]⟩) block
  have h2 := @foldl_sha1Round (fun b c d => b ^^^ c ^^^ d) 0x6ED9EBA1 20 (fun t h h' =>
    ⟨fun b c d => by rw [roundFunction, if_neg (by omega), if_pos (by omega), parity],
      by rw [roundConstant, if_neg (by omega), if_pos (by omega)]⟩) block
  have h3 := @foldl_sha1Round (fun b c d => (b &&& c) ||| (b &&& d) ||| (c &&& d)) 0x8F1BBCDC 40 (fun t h h' =>
    ⟨fun b c d => by rw [maj_eq, roundFunction, if_neg (by omega), if_neg (by omega), if_pos (by omega)],
      by rw [roundConstant, if_neg (by omega), if_neg (by omega), if_pos (by omega)]⟩) block
  have h4 := @foldl_sha1Round (fun b c d => b ^^^ c ^^^ d) 0xCA62C1D6 60 (fun t h h' =>
    ⟨fun b c d => by rw [roundFunction, if_neg (by omega), if_neg (by omega), if_neg (by omega), parity],
      by rw [roundConstant, if_neg (by omega), if_neg (by omega), if_neg (by omega)]⟩) block
  have hloops : ∀ x, (List.range 80).foldl (round block) x = (List.range' 60 20).foldl (round block)
      ((List.range' 40 20).foldl (round block)
        ((List.range' 20 20).foldl (round block) ((List.range' 0 20).foldl (round block) x))) := by
    intro x
    rw [hall, List.foldl_append, List.foldl_append, List.foldl_append]
  rw [processBlock, compress, hfirst, hslice, hslice, hslice, hloops]
  simp only [← h1, ← h2, ← h3, ← h4]
  rfl

/-- The context has compressed `s` so far and holds `buf` in its block. -/
structure Holds (context : SHA1Context) (s : Digest) (buf : List UInt8) (high low : Word) : Prop where
  digest : context.messageDigest = s
  index : context.messageBlockIndex = buf.length
  taken : context.messageBlock.toList.take buf.length = buf
  lengthHigh : context.lengthHigh = high
  lengthLow : context.lengthLow = low
  computed : context.computed = false
  corrupted : context.corrupted = false

variable {context : SHA1Context} {s : Digest} {buf message : List UInt8} {high low : Word}

theorem Holds.putByte (h : Holds context s buf high low) (hlt : buf.length < 64) (b : UInt8) :
    ∃ context', putByte context b = some context' ∧ Holds context' s (buf ++ [b]) high low := by
  have hi : context.messageBlockIndex < 64 := h.index ▸ hlt
  refine ⟨_, dif_pos hi, h.digest, by simp [h.index], ?_, h.lengthHigh, h.lengthLow, h.computed, h.corrupted⟩
  rw [Vector.toList_set, List.length_append, List.length_singleton, h.index, List.take_succ_eq_append_getElem (by simp; omega)]
  simp [List.take_set_of_le, h.taken]

theorem Holds.process (h : Holds context s buf high low) (hfull : buf.length = 64) :
    Holds (sha1ProcessMessageBlock context) (compress s buf) [] high low := by
  have hblock : context.messageBlock.toList = buf := by
    have htaken := h.taken
    rwa [List.take_of_length_le (by simp [hfull])] at htaken
  have hnext : sha1ProcessMessageBlock context =
      { context with messageDigest := compress s buf, messageBlockIndex := 0 } := by
    rw [sha1ProcessMessageBlock, processBlock_eq, h.digest, hblock]
  generalize compress s buf = digest at hnext ⊢
  rw [hnext]
  exact ⟨rfl, rfl, List.take_zero, h.lengthHigh, h.lengthLow, h.computed, h.corrupted⟩

theorem Holds.foldlM_putByte (h : Holds context s buf high low) (bs : List UInt8) (hle : buf.length + bs.length ≤ 64) :
    ∃ context', bs.foldlM Sha1.putByte context = some context' ∧ Holds context' s (buf ++ bs) high low := by
  induction bs generalizing context buf with
  | nil => exact ⟨context, rfl, by simpa using h⟩
  | cons b bs ih =>
    rw [List.length_cons] at hle
    obtain ⟨next, hput, hnext⟩ := h.putByte (by omega) b
    obtain ⟨last, hfold, hlast⟩ := ih hnext (by rw [List.length_append, List.length_singleton]; omega)
    refine ⟨last, ?_, by simpa using hlast⟩
    rw [List.foldlM_cons, hput]
    exact hfold

theorem Holds.padZeros {upto : ℕ} (h : Holds context s buf high low) (hle : buf.length ≤ upto) (hu : upto ≤ 64) :
    ∃ context', padZeros upto context = some context' ∧
      Holds context' s (buf ++ List.replicate (upto - buf.length) 0) high low := by
  rw [Sha1.padZeros, h.index]
  exact h.foldlM_putByte _ (by rw [List.length_replicate]; omega)

theorem byteOf_eq (word : Word) (shift : ℕ) : byteOf word shift = UInt8.ofNat (word.toNat / 2 ^ shift) := by
  have hand : ((word >>> shift) &&& 0xFF).toNat = word.toNat / 2 ^ shift % 256 := by
    rw [BitVec.toNat_and, BitVec.toNat_ushiftRight, Nat.shiftRight_eq_div_pow]
    exact Nat.and_two_pow_sub_one_eq_mod _ 8
  rw [byteOf, hand]
  exact UInt8.toNat_inj.1 (by simp)

theorem lengthBytes_eq {bits : ℕ} (h : high.toNat * 2 ^ 32 + low.toNat = bits) :
    [byteOf high 24, byteOf high 16, byteOf high 8, byteOf high 0, byteOf low 24, byteOf low 16, byteOf low 8, byteOf low 0] =
      bigEndian 8 bits := by
  have hlow := low.isLt
  have hbyte : ∀ a b : ℕ, a % 256 = b % 256 → UInt8.ofNat a = UInt8.ofNat b := fun a b hab =>
    UInt8.toNat_inj.1 (by simpa using hab)
  simp only [byteOf_eq, bigEndian, List.range_succ, List.range_zero, List.nil_append, List.map_cons, List.map_nil,
    List.cons_append, List.cons.injEq, and_true]
  refine ⟨?_, ?_, ?_, ?_, ?_, ?_, ?_, ?_⟩ <;> apply hbyte <;> norm_num <;> omega

theorem Holds.storeLength {bits : ℕ} (h : Holds context s buf high low) (hlen : buf.length = 56)
    (hbits : high.toNat * 2 ^ 32 + low.toNat = bits) :
    (storeLength context).messageBlock.toList = buf ++ bigEndian 8 bits := by
  obtain ⟨rest, hblock⟩ : ∃ rest, context.messageBlock.toList = buf ++ rest := by
    refine ⟨context.messageBlock.toList.drop 56, ?_⟩
    have htaken := h.taken
    rw [hlen] at htaken
    conv_rhs => rw [← htaken]
    exact (List.take_append_drop 56 _).symm
  have hrest : rest.length = 8 := by
    have hall := congrArg List.length hblock
    rw [Vector.length_toList, List.length_append] at hall
    omega
  obtain ⟨r0, r1, r2, r3, r4, r5, r6, r7, rfl⟩ : ∃ r0 r1 r2 r3 r4 r5 r6 r7, rest = [r0, r1, r2, r3, r4, r5, r6, r7] := by
    match rest, hrest with
    | [r0, r1, r2, r3, r4, r5, r6, r7], _ => exact ⟨r0, r1, r2, r3, r4, r5, r6, r7, rfl⟩
  rw [← lengthBytes_eq hbits, ← h.lengthHigh, ← h.lengthLow]
  have hset : ∀ (rest : List UInt8) (k : ℕ) (b : UInt8), (buf ++ rest).set (56 + k) b = buf ++ rest.set k b := by
    intro rest k b
    rw [List.set_append_right _ _ (by omega), hlen, Nat.add_sub_cancel_left]
  simp only [Sha1.storeLength, Vector.toList_set, hblock]
  rw [hset _ 0, hset _ 1, hset _ 2, hset _ 3, hset _ 4, hset _ 5, hset _ 6, hset _ 7]
  rfl

theorem Holds.lastBlock {bits : ℕ} (h : Holds context s buf high low) (hle : buf.length ≤ 56)
    (hbits : high.toNat * 2 ^ 32 + low.toNat = bits) :
    ∃ padded, Sha1.padZeros 56 context = some padded ∧ (sha1ProcessMessageBlock (Sha1.storeLength padded)).messageDigest =
      compress s (buf ++ (List.replicate (56 - buf.length) 0 ++ bigEndian 8 bits)) := by
  obtain ⟨padded, hpad, hholds⟩ := h.padZeros hle (by omega)
  have hlen : (buf ++ List.replicate (56 - buf.length) (0 : UInt8)).length = 56 := by
    rw [List.length_append, List.length_replicate]
    omega
  have hdigest : (Sha1.storeLength padded).messageDigest = s := hholds.digest
  refine ⟨padded, hpad, ?_⟩
  rw [sha1ProcessMessageBlock, processBlock_eq, hholds.storeLength hlen hbits, List.append_assoc, hdigest]

theorem length_bigEndian (n x : ℕ) : (bigEndian n x).length = n := by simp [bigEndian]

/-- The padding behind a block that has no room for the length. -/
theorem foldl_absorb_long {σ : Type*} {next : σ → List UInt8 → σ} {s : σ} {back : List UInt8} (hlong : 55 < buf.length)
    (hlt : buf.length < 64) (hback : back.length = 8) :
    (0x80 :: List.replicate ((119 - buf.length) % 64) 0 ++ back).foldl (absorb 64 next) (s, buf) =
      (next (next s (buf ++ 0x80 :: List.replicate (63 - buf.length) 0)) (List.replicate 56 0 ++ back), []) := by
  have hzeros : (119 - buf.length) % 64 = 63 - buf.length + 56 := by omega
  have hfront : buf.length + (0x80 :: List.replicate (63 - buf.length) (0 : UInt8)).length = 64 := by
    rw [List.length_cons, List.length_replicate]
    omega
  have hrest : ([] : List UInt8).length + (List.replicate 56 0 ++ back).length = 64 := by
    rw [List.length_append, List.length_replicate, hback, List.length_nil]
  have hne : List.replicate 56 0 ++ back ≠ [] := by
    rw [← List.length_pos_iff, List.length_append, List.length_replicate]
    omega
  rw [hzeros, ← List.replicate_append_replicate, ← List.cons_append, List.append_assoc, List.foldl_append,
    foldl_absorb_block hfront (List.cons_ne_nil _ _), foldl_absorb_block hrest hne, List.nil_append]

theorem foldl_absorb_short {σ : Type*} {next : σ → List UInt8 → σ} {s : σ} {back : List UInt8} (hshort : buf.length ≤ 55)
    (hback : back.length = 8) :
    (0x80 :: List.replicate ((119 - buf.length) % 64) 0 ++ back).foldl (absorb 64 next) (s, buf) =
      (next s (buf ++ (0x80 :: List.replicate (55 - buf.length) 0 ++ back)), []) := by
  have hzeros : (119 - buf.length) % 64 = 55 - buf.length := by omega
  have hfull : buf.length + (0x80 :: List.replicate (55 - buf.length) 0 ++ back).length = 64 := by
    rw [List.length_append, List.length_cons, List.length_replicate, hback]
    omega
  rw [hzeros, foldl_absorb_block hfull (List.cons_ne_nil _ _)]

theorem Holds.pad {bits : ℕ} (h : Holds context s buf high low) (hlt : buf.length < 64)
    (hbits : high.toNat * 2 ^ 32 + low.toNat = bits) :
    ∃ context', sha1PadMessage context = some context' ∧ context'.messageDigest =
      ((0x80 :: List.replicate ((119 - buf.length) % 64) 0 ++ bigEndian 8 bits).foldl (absorb 64 compress) (s, buf)).1 := by
  obtain ⟨marked, hput, hmarked⟩ := h.putByte hlt 0x80
  have hlen : (buf ++ [(0x80 : UInt8)]).length = buf.length + 1 := by rw [List.length_append, List.length_singleton]
  by_cases hover : 55 < buf.length
  · -- the mark and zeros fill this block, and the next one is all zeros and length
    obtain ⟨filled, hfill, hfilled⟩ := @Holds.padZeros marked s (buf ++ [0x80]) high low 64 hmarked (by omega) le_rfl
    have hzeros : 64 - (buf ++ [(0x80 : UInt8)]).length = 63 - buf.length := by omega
    rw [hzeros, List.append_assoc, List.singleton_append] at hfilled
    have hfull : (buf ++ 0x80 :: List.replicate (63 - buf.length) (0 : UInt8)).length = 64 := by
      rw [List.length_append, List.length_cons, List.length_replicate]
      omega
    obtain ⟨last, hlast, hdigest⟩ := (hfilled.process hfull).lastBlock (Nat.zero_le _) hbits
    refine ⟨sha1ProcessMessageBlock (Sha1.storeLength last), ?_, ?_⟩
    · rw [sha1PadMessage, if_pos (h.index ▸ hover), hput, Option.bind_eq_bind, Option.bind_some, hfill, Option.bind_some,
        hlast, Option.bind_some, Option.pure_def]
    · rw [foldl_absorb_long hover hlt (length_bigEndian 8 bits), hdigest, List.nil_append, List.length_nil, Nat.sub_zero]
  · obtain ⟨last, hlast, hdigest⟩ := hmarked.lastBlock (by omega) hbits
    refine ⟨sha1ProcessMessageBlock (Sha1.storeLength last), ?_, ?_⟩
    · rw [sha1PadMessage, if_neg (h.index ▸ hover), hput, Option.bind_eq_bind, Option.bind_some, hlast, Option.bind_some,
        Option.pure_def]
    · have hzeros : 56 - (buf ++ [(0x80 : UInt8)]).length = 55 - buf.length := by omega
      rw [foldl_absorb_short (not_lt.1 hover) (length_bigEndian 8 bits), hdigest, hzeros, List.append_assoc,
        List.singleton_append, List.cons_append]

def maxLength : ℕ := 2 ^ 61

/-- The context has taken the message; it counts bits in 64 bits and is corrupted when these overflow. -/
structure Taken (context : SHA1Context) (message : List UInt8) : Prop where
  held : message.length < maxLength → ∃ high low,
    Holds context (foldBlocks 64 compress initialDigest message) (leftover 64 message) high low ∧
      high.toNat * 2 ^ 32 + low.toNat = 8 * message.length
  refused : maxLength ≤ message.length → context.corrupted = true

theorem Taken.lt (h : Taken context message) (hc : context.corrupted = false) : message.length < maxLength := by
  by_contra hge
  rw [h.refused (not_lt.1 hge)] at hc
  cases hc

theorem Taken.le (h : Taken context message) (hc : context.computed = true ∨ context.corrupted = true) :
    maxLength ≤ message.length := by
  by_contra hlt
  obtain ⟨high, low, hholds, -⟩ := h.held (not_le.1 hlt)
  simp [hholds.computed, hholds.corrupted] at hc

theorem Taken.corrupted (hlong : maxLength ≤ message.length) (hc : context.corrupted = true) (bytes : List UInt8) :
    Taken context (message ++ bytes) := by
  have hle : maxLength ≤ (message ++ bytes).length := by
    rw [List.length_append]
    omega
  exact ⟨fun hlt => absurd hle (not_le.2 hlt), fun _ => hc⟩

theorem taken_reset (context : SHA1Context) : Taken (sha1Reset context) [] := by
  refine ⟨fun _ => ⟨0, 0, ⟨?_, rfl, List.take_zero, rfl, rfl, rfl, rfl⟩, rfl⟩, fun hlong => ?_⟩
  · simp [sha1Reset, foldBlocks]
  · rw [maxLength, List.length_nil] at hlong
    omega

/-- A word of the length is used up, or it grows by the addend. -/
theorem add_word (word : Word) {k : Word} (hk : 0 < k.toNat) :
    (word + k = 0 ∧ word.toNat + k.toNat = 2 ^ 32) ∨ (word + k ≠ 0 ∧ (word + k).toNat = word.toNat + k.toNat) ∨
      (word + k ≠ 0 ∧ 2 ^ 32 < word.toNat + k.toNat) := by
  have hword := word.isLt
  have hlt := k.isLt
  have hadd := BitVec.toNat_add word k
  by_cases hzero : word + k = 0
  · rw [hzero, show (0 : Word).toNat = 0 from rfl] at hadd
    exact .inl ⟨hzero, by omega⟩
  · by_cases hover : word.toNat + k.toNat < 2 ^ 32
    · exact .inr (.inl ⟨hzero, by rw [hadd, Nat.mod_eq_of_lt hover]⟩)
    · refine .inr (.inr ⟨hzero, ?_⟩)
      by_contra hle
      exact hzero (BitVec.eq_of_toNat_eq (by rw [hadd, show (0 : Word).toNat = 0 from rfl]; omega))

theorem Holds.countByte (h : Holds context s buf high low) {length : ℕ} (hbits : high.toNat * 2 ^ 32 + low.toNat = 8 * length) :
    (length + 1 < maxLength → ∃ high' low', Holds (countByte context) s buf high' low' ∧
      high'.toNat * 2 ^ 32 + low'.toNat = 8 * (length + 1)) ∧
    (length + 1 = maxLength → (countByte context).corrupted = true) := by
  have hlow := low.isLt
  have hhigh := high.isLt
  have hzeroNat : (0 : Word).toNat = 0 := rfl
  have hcount : ∀ {high' low' : Word}, high'.toNat * 2 ^ 32 + low'.toNat = high.toNat * 2 ^ 32 + low.toNat + 8 →
      high'.toNat * 2 ^ 32 + low'.toNat = 8 * (length + 1) := by
    intro high' low' hnext
    rw [hnext, hbits, Nat.mul_add]
  rw [maxLength]
  rcases @add_word low 8 (by decide) with ⟨hzero, hwrap⟩ | ⟨hzero, hadd⟩ | ⟨-, hover⟩
  · rw [show (8 : Word).toNat = 8 from rfl] at hwrap
    rcases @add_word high 1 (by decide) with ⟨hfull, hmax⟩ | ⟨hfull, hinc⟩ | ⟨-, hover⟩
    · rw [show (1 : Word).toNat = 1 from rfl] at hmax
      refine ⟨fun hlt => by omega, fun _ => ?_⟩
      rw [Sha1.countByte, h.lengthLow, h.lengthHigh, if_pos hzero]
      exact if_pos hfull
    · rw [show (1 : Word).toNat = 1 from rfl] at hinc
      refine ⟨fun _ => ⟨high + 1, low + 8, ?_, hcount ?_⟩, fun heq => ?_⟩
      · rw [Sha1.countByte, h.lengthLow, h.lengthHigh, if_pos hzero]
        exact ⟨h.digest, h.index, h.taken, rfl, rfl, h.computed, (if_neg hfull).trans h.corrupted⟩
      · rw [hinc, hzero, hzeroNat, Nat.add_assoc, hwrap, Nat.add_mul, Nat.one_mul, Nat.add_zero]
      · have hnew := (high + 1).isLt
        rw [hinc] at hnew
        omega
    · rw [show (1 : Word).toNat = 1 from rfl] at hover
      omega
  · rw [show (8 : Word).toNat = 8 from rfl] at hadd
    refine ⟨fun _ => ⟨high, low + 8, ?_, hcount (by rw [hadd]; omega)⟩, fun heq => ?_⟩
    · rw [Sha1.countByte, h.lengthLow, if_neg hzero]
      exact ⟨h.digest, h.index, h.taken, h.lengthHigh, rfl, h.computed, h.corrupted⟩
    · have hnew := (low + 8).isLt
      rw [hadd] at hnew
      omega
  · have height : (8 : Word).toNat = 8 := rfl
    have hmultiple : low.toNat % 8 = 0 := by omega
    omega

theorem Taken.byte (h : Taken context message) (hc : context.corrupted = false) (b : UInt8) :
    ∃ context', putByte context b = some context' ∧
      Taken (if (countByte context').messageBlockIndex = 64 then sha1ProcessMessageBlock (countByte context')
        else countByte context') (message ++ [b]) := by
  obtain ⟨high, low, hholds, hbits⟩ := h.held (h.lt hc)
  have hbuf := @leftover_lt UInt8 64 message (by decide)
  obtain ⟨next, hput, hnext⟩ := hholds.putByte hbuf b
  obtain ⟨hcount, hover⟩ := hnext.countByte hbits
  have hlen : (message ++ [b]).length = message.length + 1 := by rw [List.length_append, List.length_singleton]
  have habsorb : (foldBlocks 64 compress initialDigest (message ++ [b]), leftover 64 (message ++ [b])) =
      absorb 64 compress (foldBlocks 64 compress initialDigest message, leftover 64 message) b := by
    rw [← foldl_absorb (by decide), ← foldl_absorb (by decide), List.foldl_append, List.foldl_cons, List.foldl_nil]
  refine ⟨next, hput, fun hfits => ?_, fun hlong => ?_⟩
  · obtain ⟨high', low', hcounted, hbits'⟩ := hcount (hlen ▸ hfits)
    refine ⟨high', low', ?_, hlen ▸ hbits'⟩
    by_cases hfull : (leftover 64 message).length + 1 = 64
    · rw [absorb_full hfull, Prod.mk.injEq] at habsorb
      have hblock : (leftover 64 message ++ [b]).length = 64 := by rw [List.length_append, List.length_singleton, hfull]
      rw [if_pos (hcounted.index.trans hblock), habsorb.1, habsorb.2]
      exact hcounted.process hblock
    · rw [absorb_within hfull, Prod.mk.injEq] at habsorb
      have hblock : (leftover 64 message ++ [b]).length ≠ 64 := by rwa [List.length_append, List.length_singleton]
      rw [if_neg (hcounted.index.trans_ne hblock), habsorb.1, habsorb.2]
      exact hcounted
  · have hcorrupted := hover (by have := h.lt hc; omega)
    split_ifs
    · rw [sha1ProcessMessageBlock]
      exact hcorrupted
    · exact hcorrupted

theorem taken_inputLoop (h : Taken context message) (bytes : List UInt8) :
    ∃ context', inputLoop bytes context = some context' ∧ Taken context' (message ++ bytes) := by
  induction bytes generalizing context message with
  | nil => exact ⟨context, rfl, by simpa using h⟩
  | cons b bytes ih =>
    cases hc : context.corrupted with
    | true => exact ⟨context, by rw [inputLoop, if_pos hc], .corrupted (h.le (.inr hc)) hc _⟩
    | false =>
      obtain ⟨next, hput, hnext⟩ := h.byte hc b
      obtain ⟨last, hloop, hlast⟩ := ih hnext
      refine ⟨last, ?_, by simpa using hlast⟩
      rw [inputLoop, if_neg (by simp [hc]), hput, Option.bind_eq_bind, Option.bind_some, hloop]

theorem Taken.input (h : Taken context message) (bytes : List UInt8) :
    ∃ context', sha1Input context bytes = some context' ∧ Taken context' (message ++ bytes) := by
  by_cases hempty : bytes = []
  · exact ⟨context, by rw [sha1Input, if_pos hempty], by simpa [hempty] using h⟩
  by_cases hdone : context.computed = true ∨ context.corrupted = true
  · exact ⟨{ context with corrupted := true }, by rw [sha1Input, if_neg hempty, if_pos hdone], .corrupted (h.le hdone) rfl _⟩
  · rw [sha1Input, if_neg hempty, if_neg hdone]
    exact taken_inputLoop h bytes

theorem taken_foldlM (h : Taken context message) (pieces : List (List UInt8)) :
    ∃ context', pieces.foldlM sha1Input context = some context' ∧ Taken context' (message ++ pieces.flatten) := by
  induction pieces generalizing context message with
  | nil => exact ⟨context, rfl, by simpa using h⟩
  | cons piece pieces ih =>
    obtain ⟨next, hinput, hnext⟩ := h.input piece
    obtain ⟨last, hfold, hlast⟩ := ih hnext
    refine ⟨last, ?_, by simpa using hlast⟩
    rw [List.foldlM_cons, hinput, Option.bind_eq_bind, Option.bind_some, hfold]

/-- In whatever pieces the message comes, and whatever the block held before, no byte is written behind the
block, and the result is the standard's sum, or a refusal from 2^64 bits on. -/
theorem sha1Sum_eq (context : SHA1Context) (pieces : List (List UInt8)) :
    ∃ context', sha1Sum context pieces = some (context', if pieces.flatten.length < maxLength then 1 else 0) ∧
      (pieces.flatten.length < maxLength → context'.messageDigest = sha1 pieces.flatten) := by
  obtain ⟨filled, hfold, hfilled⟩ := taken_foldlM (taken_reset context) pieces
  rw [List.nil_append] at hfilled
  by_cases hlt : pieces.flatten.length < maxLength
  · obtain ⟨high, low, hholds, hbits⟩ := hfilled.held hlt
    obtain ⟨last, hpad, hdigest⟩ := hholds.pad (leftover_lt (by decide)) hbits
    have hsum : last.messageDigest = sha1 pieces.flatten := by
      rw [hdigest, length_leftover, sha1, foldBlocks_append (by decide), padding]
    refine ⟨{ last with computed := true }, ?_, fun _ => hsum⟩
    rw [sha1Sum, hfold, Option.bind_eq_bind, Option.bind_some, sha1Result, if_neg (by rw [hholds.corrupted]; decide),
      if_neg (by rw [hholds.computed]; decide), hpad, Option.map_some, if_pos hlt]
  · have hcorrupted := hfilled.refused (not_lt.1 hlt)
    refine ⟨filled, ?_, fun h => absurd h hlt⟩
    rw [sha1Sum, hfold, Option.bind_eq_bind, Option.bind_some, sha1Result, if_pos hcorrupted, if_neg hlt]

end StompBroker.Sha1
