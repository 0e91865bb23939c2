import StompBroker.Sha1
import StompBroker.Base64
import StompBroker.Handshake
import StompBroker.Dataframe

/-! The accept key of the handshake: the base64 text of the SHA-1 sum of the client's key and the magic
key. -/
namespace StompBroker.AcceptKey
open CString SessionStorage Message ReaderThread Dataframe Sha1 Base64 Handshake

def words (digest : Digest) : List Word := [digest.a, digest.b, digest.c, digest.d, digest.e]

/-- `number = ntohl(sha.Message_Digest[i]); memcpy(sha1Key + (4 * i), (unsigned char *) &number, 4);` for all words. -/
def sha1Key (digest : Digest) : List UInt8 := (words digest).flatMap fun word => hostBytes 4 (htonl word.toNat)

/-- The context on the stack holds what was there before. `none` stands for a null result. -/
def createAcceptKey (sha : SHA1Context) (clientKey : CStr) : Option CStr := do
  let sha ← sha1Input (sha1Reset sha) (clientKey ++ websocketMagicKey)
  let (sha, ok) ← sha1Result sha
  if ok = 0 then none
  else
    let (acceptKey, length) := base64EncodeAlloc (sha1Key sha.messageDigest)
    if length = 0 then none else acceptKey.map fun text => text.takeWhile (· != 0)

/-- The bytes of a sum, the first byte of a word on top. -/
def digestBytes (digest : Digest) : List UInt8 := (words digest).flatMap fun word => bigEndian 4 word.toNat

def standardKey (clientKey : CStr) : CStr := encoded (digestBytes (sha1 (clientKey ++ websocketMagicKey)))

theorem bytes_of_swapped {b0 b1 b2 b3 : ℕ} (h0 : b0 < 256) (h1 : b1 < 256) (h2 : b2 < 256) (h3 : b3 < 256) :
    hostBytes 4 (b0 * 2 ^ 24 + b1 * 2 ^ 16 + b2 * 2 ^ 8 + b3) =
      [UInt8.ofNat b3, UInt8.ofNat b2, UInt8.ofNat b1, UInt8.ofNat b0] := by
  simp only [hostBytes, List.cons.injEq, and_true]
  refine ⟨?_, ?_, ?_, ?_⟩ <;> congr 1 <;> omega

theorem hostBytes_htonl (n : ℕ) : hostBytes 4 (htonl n) = bigEndian 4 n := by
  have hlt : ∀ k, k % 256 < 256 := fun k => Nat.mod_lt k (by decide)
  have hbyte : ∀ a : ℕ, UInt8.ofNat (a % 256) = UInt8.ofNat a := fun a => UInt8.toNat_inj.1 (by simp)
  rw [htonl, bytes_of_swapped (hlt _) (hlt _) (hlt _) (hlt _), hbyte, hbyte, hbyte, hbyte]
  simp [bigEndian, List.range_succ]

theorem sha1Key_eq (digest : Digest) : sha1Key digest = digestBytes digest := by
  rw [sha1Key, digestBytes]
  exact congrArg ((words digest).flatMap ·) (funext fun word => hostBytes_htonl word.toNat)

theorem length_digestBytes (digest : Digest) : (digestBytes digest).length = 20 := by
  simp [digestBytes, words, length_bigEndian]

theorem createAcceptKey_eq (sha : SHA1Context) {clientKey : CStr} (h : (clientKey ++ websocketMagicKey).length < 2 ^ 31) :
    createAcceptKey sha clientKey = some (standardKey clientKey) := by
  obtain ⟨done, hsum, hdigest⟩ := sha1Sum_eq sha [clientKey ++ websocketMagicKey]
  have hlt : [clientKey ++ websocketMagicKey].flatten.length < maxLength := by
    rw [List.flatten_singleton, maxLength]
    omega
  have hkey : sha1Key done.messageDigest = digestBytes (sha1 (clientKey ++ websocketMagicKey)) := by
    rw [sha1Key_eq, hdigest hlt, List.flatten_singleton]
  have hlen : (encoded (sha1Key done.messageDigest)).length = 28 := by
    rw [length_encoded, hkey, length_digestBytes]
  have halloc := (@base64EncodeAlloc_eq (sha1Key done.messageDigest) (by rw [hkey, length_digestBytes]; decide)).1
  rw [if_pos (by rw [hlen]; decide)] at halloc
  have htext : (encoded (sha1Key done.messageDigest) ++ [0]).takeWhile (· != 0) = encoded (sha1Key done.messageDigest) := by
    rw [List.takeWhile_append_of_pos fun c hc => by simpa using encoded_ne_zero _ c hc]
    simp
  rw [if_pos hlt, sha1Sum, List.foldlM_cons] at hsum
  simp only [List.foldlM_nil, bind_pure] at hsum
  obtain ⟨filled, hinput, hresult⟩ := Option.bind_eq_some_iff.1 hsum
  rw [createAcceptKey, hinput, Option.bind_eq_bind, Option.bind_some, hresult, Option.bind_eq_bind, Option.bind_some]
  dsimp only
  rw [if_neg (by decide), halloc]
  dsimp only
  rw [hlen, if_neg (by decide), Option.map_some, htext, hkey, standardKey]

theorem length_standardKey (clientKey : CStr) : (standardKey clientKey).length = 28 := by
  rw [standardKey, length_encoded, length_digestBytes]

/-- A request whose key is cut at its end is answered with the accept key of the standard, whatever the context on
the stack held before: 28 characters that decode to the sum of the key and the magic key. -/
theorem handshake_answers_standard_key {request pre key post : CStr} (h : KeyRequest request pre key post)
    (hcut : CutAtKey request key) (hlen : (key ++ websocketMagicKey).length < 2 ^ 31) (sha : SHA1Context) (fd : Fd) (ts : ℤ) :
    createAcceptKey sha key = some (standardKey key) ∧
      wsInputFilterHandshake (fun clientKey => (createAcceptKey sha clientKey).getD []) ⟨fd, request, ts⟩ =
        some [sendAcceptResponse (standardKey key) fd] ∧
      (standardKey key).length = 28 ∧
      base64DecodeAlloc (standardKey key) = some (digestBytes (sha1 (key ++ websocketMagicKey))) := by
  have haccept := createAcceptKey_eq sha hlen
  have hnl : nl ∈ request := by
    rw [h.split]
    simp
  refine ⟨haccept, ?_, length_standardKey key, ?_⟩
  · rw [wsInputFilterHandshake, if_pos (isHttpRequest_of_get h.get hnl)]
    simp only [parse_of_cutAtKey h.keyEnd hcut, haccept, Option.getD_some]
  · exact (base64EncodeAlloc_eq (by rw [length_digestBytes]; decide)).2

def stackContext : SHA1Context := ⟨initialDigest, 0, 0, Vector.replicate 64 0, 0, false, false⟩

theorem handshake_answers_standard_key_plain :
    createAcceptKey stackContext sampleKey = some (standardKey sampleKey) ∧
      wsInputFilterHandshake (fun clientKey => (createAcceptKey stackContext clientKey).getD [])
          ⟨4, sampleRequest (lit "GET /chat HTTP/1.1\r\n"), 0⟩ = some [sendAcceptResponse (standardKey sampleKey) 4] ∧
      (standardKey sampleKey).length = 28 ∧
      base64DecodeAlloc (standardKey sampleKey) = some (digestBytes (sha1 (sampleKey ++ websocketMagicKey))) :=
  handshake_answers_standard_key keyRequest_plain (keyRequest_plain.cutAtKey (by decide) (by decide)) (by decide) stackContext 4 0

end StompBroker.AcceptKey
