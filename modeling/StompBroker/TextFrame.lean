import StompBroker.DecodeLoop
import StompBroker.Reassembly

/-! Masked text frames with minimal length encoding, and the decode loop over a buffer that
holds some of them and the beginning of the next one. -/
namespace StompBroker.TextFrame
open CString SessionStorage WsBuffer Dataframe DecodeLoop Reassembly

/-- The mask bit and the length of a payload in the shortest of the three forms, most
significant byte first. -/
def lengthField (n : ℕ) : List UInt8 :=
  if n < 126 then [UInt8.ofNat (0x80 + n)]
  else if n < 65536 then 0xFE :: (hostBytes 2 n).reverse
  else 0xFF :: (hostBytes 8 n).reverse

/-- A frame on the wire; masking and unmasking are the same operation. -/
def wireBytes (first : UInt8) (mask payload : List UInt8) : List UInt8 :=
  first :: (lengthField payload.length ++ mask) ++ unmask mask payload

/-- A masked text frame that carries one STOMP text and its NUL. -/
structure Frame where
  first : UInt8
  mask : List UInt8
  text : CStr
  text_opcode : first &&& 0xF = 1
  mask_length : mask.length = 4
  text_ne : text ≠ []
  nul_free : (0 : UInt8) ∉ text
  long : minDataFrameSize < (wireBytes first mask (text ++ [0])).length
  small : text.length + 1 ≤ wsDataFrameMaxLength

def Frame.payload (f : Frame) : List UInt8 := f.text ++ [0]

def Frame.bytes (f : Frame) : List UInt8 := wireBytes f.first f.mask f.payload

theorem length_lengthField (n : ℕ) : (lengthField n).length + 5 = skipLen n := by
  unfold lengthField skipLen
  split_ifs <;> simp

theorem length_unmask (mask payload : List UInt8) : (unmask mask payload).length = payload.length := by
  simp [unmask]

theorem unmask_unmask (mask payload : List UInt8) : unmask mask (unmask mask payload) = payload := by
  apply List.ext_getElem
  · simp [unmask]
  · intro i h1 h2
    simp only [unmask, List.getElem_mapIdx]
    rw [UInt8.xor_assoc, UInt8.xor_self, UInt8.xor_zero]

theorem hostValue_hostBytes {k n : ℕ} (h : n < 256 ^ k) : hostValue (hostBytes k n) = n := by
  induction k generalizing n with
  | zero =>
    simp only [pow_zero] at h
    simp only [hostBytes, hostValue]
    omega
  | succ k ih =>
    have hq : n / 256 < 256 ^ k := by
      rw [pow_succ] at h
      exact Nat.div_lt_of_lt_mul (by omega)
    have hb : (UInt8.ofNat (n % 256)).toNat = n % 256 := by simp
    simp only [hostBytes, hostValue, ih hq, hb]
    omega

theorem htons_hostValue (x y : UInt8) : htons (hostValue [x, y]) = hostValue [y, x] := by
  have hx := x.toNat_lt
  have hy := y.toNat_lt
  simp only [hostValue, htons]
  omega

theorem htonl_eq {x0 x1 x2 x3 : ℕ} (h0 : x0 < 256) (h1 : x1 < 256) (h2 : x2 < 256)
    (h3 : x3 < 256) : htonl (x0 + 256 * (x1 + 256 * (x2 + 256 * x3))) =
      x3 + 256 * (x2 + 256 * (x1 + 256 * x0)) := by
  have e0 : (x0 + 256 * (x1 + 256 * (x2 + 256 * x3))) % 256 = x0 := by omega
  have e1 : (x0 + 256 * (x1 + 256 * (x2 + 256 * x3))) / 2 ^ 8 % 256 = x1 := by omega
  have e2 : (x0 + 256 * (x1 + 256 * (x2 + 256 * x3))) / 2 ^ 16 % 256 = x2 := by omega
  have e3 : (x0 + 256 * (x1 + 256 * (x2 + 256 * x3))) / 2 ^ 24 % 256 = x3 := by omega
  rw [htonl, e0, e1, e2, e3]
  omega

theorem ntohl64_hostValue (bs : List UInt8) (h : bs.length = 8) :
    ntohl64 (hostValue bs.reverse) = hostValue bs := by
  match bs, h with
  | [b0, b1, b2, b3, b4, b5, b6, b7], _ =>
    have l0 := b0.toNat_lt
    have l1 := b1.toNat_lt
    have l2 := b2.toNat_lt
    have l3 := b3.toNat_lt
    have l4 := b4.toNat_lt
    have l5 := b5.toNat_lt
    have l6 := b6.toNat_lt
    have l7 := b7.toNat_lt
    have hv : hostValue [b0, b1, b2, b3, b4, b5, b6, b7].reverse =
        b7.toNat + 256 * (b6.toNat + 256 * (b5.toNat + 256 * b4.toNat)) +
          2 ^ 32 * (b3.toNat + 256 * (b2.toNat + 256 * (b1.toNat + 256 * b0.toNat))) := by
      simp only [List.reverse_cons, List.reverse_nil, List.nil_append, List.cons_append, hostValue]
      ring
    have hlow : hostValue [b0, b1, b2, b3, b4, b5, b6, b7].reverse % 2 ^ 32 =
        b7.toNat + 256 * (b6.toNat + 256 * (b5.toNat + 256 * b4.toNat)) := by
      rw [hv, Nat.add_mul_mod_self_left, Nat.mod_eq_of_lt (by omega)]
    have hhigh : hostValue [b0, b1, b2, b3, b4, b5, b6, b7].reverse / 2 ^ 32 =
        b3.toNat + 256 * (b2.toNat + 256 * (b1.toNat + 256 * b0.toNat)) := by
      rw [hv, Nat.add_mul_div_left _ _ (by omega), Nat.div_eq_of_lt (by omega), Nat.zero_add]
    rw [ntohl64, hlow, hhigh, htonl_eq l7 l6 l5 l4, htonl_eq l3 l2 l1 l0]
    simp only [hostValue]
    ring

theorem htons_hostBytes {n : ℕ} (h : n < 65536) : htons (hostValue (hostBytes 2 n).reverse) = n := by
  have hb : hostBytes 2 n = [UInt8.ofNat (n % 256), UInt8.ofNat (n / 256 % 256)] := rfl
  have hr := hostValue_hostBytes (k := 2) (n := n) (by omega)
  rw [hb] at hr ⊢
  exact (htons_hostValue _ _).trans hr

theorem ntohl64_hostBytes {n : ℕ} (h : n < 2 ^ 64) :
    ntohl64 (hostValue (hostBytes 8 n).reverse) = n := by
  rw [ntohl64_hostValue _ (length_hostBytes 8 n)]
  exact hostValue_hostBytes (k := 8) (by omega)

/-- The header of a frame is read back, whatever follows it. -/
theorem textFront_header {first : UInt8} {mask : List UInt8} {n : ℕ} (tail : List UInt8)
    (ho : first &&& 0xF = 1) (hm : mask.length = 4) (hn : n < 2 ^ 64) :
    textFront (first :: (lengthField n ++ mask) ++ tail) = some (n, skipLen n, mask) := by
  obtain ⟨m0, m1, m2, m3, rfl⟩ : ∃ m0 m1 m2 m3, mask = [m0, m1, m2, m3] := by
    match mask, hm with
    | [m0, m1, m2, m3], _ => exact ⟨m0, m1, m2, m3, rfl⟩
  unfold lengthField skipLen
  split_ifs with h1 h2
  · have hcode : (UInt8.ofNat (0x80 + n) &&& 0x7f).toNat = n := by
      rw [UInt8.toNat_and, UInt8.toNat_ofNat', show (0x7f : UInt8).toNat = 2 ^ 7 - 1 from rfl,
        Nat.and_two_pow_sub_one_eq_mod]
      omega
    generalize UInt8.ofNat (0x80 + n) = code at hcode
    simp [textFront, ho, hcode, readLength, h1, slice, -UInt8.toNat_and]
  · have hcode : ((0xFE : UInt8) &&& 0x7f).toNat = 126 := rfl
    have hb : (hostBytes 2 n).reverse = [UInt8.ofNat (n / 256 % 256), UInt8.ofNat (n % 256)] := rfl
    have hv := htons_hostBytes h2
    rw [hb] at hv ⊢
    simp [textFront, ho, hcode, readLength, slice, hv]
  · have hcode : ((0xFF : UInt8) &&& 0x7f).toNat = 127 := rfl
    have hv := ntohl64_hostBytes hn
    obtain ⟨c0, c1, c2, c3, c4, c5, c6, c7, hb⟩ : ∃ c0 c1 c2 c3 c4 c5 c6 c7,
        (hostBytes 8 n).reverse = [c0, c1, c2, c3, c4, c5, c6, c7] :=
      ⟨_, _, _, _, _, _, _, _, rfl⟩
    rw [hb] at hv ⊢
    simp [textFront, ho, hcode, readLength, slice, hv]

theorem length_wireHeader (first : UInt8) {mask : List UInt8} (n : ℕ) (hm : mask.length = 4) :
    (first :: (lengthField n ++ mask)).length = skipLen n := by
  have := length_lengthField n
  simp only [List.length_cons, List.length_append]
  omega

section Wire
variable {first : UInt8} {mask payload : List UInt8} (hm : mask.length = 4)
include hm

theorem length_wireBytes :
    (wireBytes first mask payload).length = skipLen payload.length + payload.length := by
  rw [wireBytes, List.length_append, length_wireHeader first payload.length hm, length_unmask]

theorem textFront_wireBytes (ho : first &&& 0xF = 1) (hn : payload.length < 2 ^ 64) (rest : List UInt8) :
    textFront (wireBytes first mask payload ++ rest) =
      some (payload.length, skipLen payload.length, mask) := by
  rw [wireBytes, List.append_assoc]
  exact textFront_header _ ho hm hn

theorem unmask_drop_wireBytes (rest : List UInt8) :
    unmask mask (((wireBytes first mask payload ++ rest).drop (skipLen payload.length)).take
      payload.length) = payload := by
  have hh := length_wireHeader first payload.length hm
  have hd : (wireBytes first mask payload ++ rest).drop (skipLen payload.length) =
      unmask mask payload ++ rest := by
    rw [wireBytes, List.append_assoc, ← hh, List.drop_left]
  rw [hd, List.take_append_of_le_length (by rw [length_unmask]),
    List.take_of_length_le (by rw [length_unmask]), unmask_unmask]

end Wire

theorem Frame.bytes_eq (f : Frame) :
    f.bytes = f.first :: (lengthField f.payload.length ++ f.mask) ++ unmask f.mask f.payload := rfl

theorem Frame.length_payload (f : Frame) : f.payload.length = f.text.length + 1 := by
  simp [Frame.payload]

theorem Frame.length_header (f : Frame) :
    (f.first :: (lengthField f.payload.length ++ f.mask)).length = skipLen f.payload.length :=
  length_wireHeader f.first f.payload.length f.mask_length

theorem Frame.length_bytes (f : Frame) :
    f.bytes.length = skipLen f.payload.length + f.payload.length :=
  length_wireBytes f.mask_length

theorem Frame.bytes_ne_nil (f : Frame) : f.bytes ≠ [] := by simp [f.bytes_eq]

theorem Frame.payload_small (f : Frame) : f.payload.length ≤ wsDataFrameMaxLength := by
  rw [f.length_payload]
  exact f.small

theorem Frame.payload_lt (f : Frame) : f.payload.length < 2 ^ 64 := by
  have := f.payload_small
  unfold wsDataFrameMaxLength at this
  omega

theorem Frame.textFront_append (f : Frame) (rest : List UInt8) :
    textFront (f.bytes ++ rest) =
      some (f.payload.length, skipLen f.payload.length, f.mask) :=
  textFront_wireBytes f.mask_length f.text_opcode f.payload_lt rest

/-- So does a proper beginning of a frame once it is longer than the smallest frame. -/
theorem Frame.textFront_prefix (f : Frame) {p : List UInt8} (hp : p <+: f.bytes)
    (hlong : minDataFrameSize < p.length) :
    textFront p = some (f.payload.length, skipLen f.payload.length, f.mask) := by
  have hle := skipLen_le f.payload.length
  unfold minDataFrameSize at hlong
  have hhead : (f.first :: (lengthField f.payload.length ++ f.mask)) <+: p := by
    apply List.prefix_of_prefix_length_le (List.prefix_append _ _) hp
    rw [f.length_header]
    omega
  obtain ⟨tail, rfl⟩ := hhead
  exact textFront_header _ f.text_opcode f.mask_length f.payload_lt

theorem Frame.unmask_drop (f : Frame) (rest : List UInt8) :
    unmask f.mask (((f.bytes ++ rest).drop (skipLen f.payload.length)).take f.payload.length) =
      f.payload :=
  unmask_drop_wireBytes f.mask_length rest

/-- The block of a slot with the given bytes: null when there are none. -/
def blockOf (bytes : List UInt8) : Option (List UInt8) := if bytes = [] then none else some bytes

theorem remaining_left (front rest : List UInt8) : remaining (front ++ rest) front.length = blockOf rest := by
  cases rest with
  | nil => simp [remaining, blockOf]
  | cons b rest => simp [remaining, blockOf]

theorem remaining_append (f : Frame) (rest : List UInt8) :
    remaining (f.bytes ++ rest) (skipLen f.payload.length + f.payload.length) = blockOf rest := by
  rw [← f.length_bytes]
  exact remaining_left f.bytes rest

def gathered (old : Option (List UInt8)) (gs : List Frame) : Option (List UInt8) :=
  if gs = [] then old else some (old.getD [] ++ gs.flatMap Frame.payload)

theorem gathered_cons (old : Option (List UInt8)) (g : Frame) (gs : List Frame) :
    gathered (some (old.getD [] ++ g.payload)) gs = gathered old (g :: gs) := by
  cases gs with
  | nil => simp [gathered]
  | cons g' gs => simp [gathered]

/-- The loop decodes the complete frames of the buffer and leaves the rest in the slot. -/
theorem decodeLoop_frames {s : LoopState} {gs hs : List Frame} {q : List UInt8} {fuel : ℕ}
    (hlen : s.buff.frameLen = 0) (hr : s.buff.received = blockOf (encodeAll Frame.bytes gs ++ q))
    (hq : Pending Frame.bytes hs q) (hfull : ∃ n, s.fullFrameLen = .inr n) (hf : gs.length < fuel) :
    ∃ t, decodeLoop fuel s = some t ∧ t.buff.fd = s.buff.fd ∧ t.buff.received = blockOf q ∧
      t.agDecodedData = gathered s.agDecodedData gs ∧ ∃ n, t.fullFrameLen = .inr n := by
  induction gs generalizing s fuel with
  | nil =>
    obtain ⟨fuel, rfl⟩ : ∃ k, fuel = k + 1 := ⟨fuel - 1, by simp at hf; omega⟩
    simp only [encodeAll_nil, List.nil_append] at hr
    by_cases hlong : minDataFrameSize < q.length
    · rcases hq with rfl | ⟨f, rest, rfl, hp, hne⟩
      · simp at hlong
      · have hat : AtFront s q := by
          refine ⟨?_, hlen, hlong⟩
          rw [hr, blockOf, if_neg]
          rintro rfl
          simp at hlong
        have hlt : q.length < f.payload.length + skipLen f.payload.length := by
          have hle := hp.length_le
          have hb := f.length_bytes
          rcases Nat.lt_or_ge q.length f.bytes.length with h | h
          · omega
          · exact absurd (hp.eq_of_length (by omega)) hne
        have hit := iteration_of_part hat (f.textFront_prefix hp hlong) f.payload_small hlt
        exact ⟨_, decodeLoop_leave hit fuel, rfl, hr, rfl, _, rfl⟩
    · have hdone : ¬ (s.buff.receivedLen > minDataFrameSize ∧ s.buff.frameLen = 0) := by
        rintro ⟨h, -⟩
        rw [BufferItem.receivedLen, hr, blockOf] at h
        split_ifs at h
        · simp at h
        · exact hlong h
      exact ⟨s, decodeLoop_leave (iteration_of_done hdone) fuel, rfl, hr, rfl, hfull⟩
  | cons g gs ih =>
    obtain ⟨fuel, rfl⟩ : ∃ k, fuel = k + 1 := ⟨fuel - 1, by simp at hf; omega⟩
    rw [encodeAll_cons, List.append_assoc] at hr
    have hgl := g.long
    have hat : AtFront s (g.bytes ++ (encodeAll Frame.bytes gs ++ q)) := by
      refine ⟨?_, hlen, ?_⟩
      · rw [hr, blockOf, if_neg]
        intro h
        exact g.bytes_ne_nil (List.append_eq_nil_iff.mp h).1
      · rw [List.length_append]
        exact Nat.lt_add_right _ hgl
    have hit := iteration_of_frame hat (g.textFront_append _) (by rw [g.length_payload]; omega)
      g.payload_small (by rw [List.length_append, g.length_bytes]; omega)
    have hfuel : gs.length < fuel := by
      simp only [List.length_cons] at hf
      omega
    obtain ⟨t, ht, hfd, hrec, hag, hn⟩ := ih (s := LoopState.consume s _ g.payload.length
      (skipLen g.payload.length) g.mask) rfl (remaining_append g _) ⟨_, rfl⟩ hfuel
    refine ⟨t, (decodeLoop_again hit fuel).trans ht, hfd, hrec, ?_, hn⟩
    rw [hag, LoopState.consume, g.unmask_drop, gathered_cons]

end StompBroker.TextFrame
