import StompBroker.ReaderThread

/-! The key of the websocket handshake. Its end is searched in the whole request, so every text
in front of the header decides whether the key is cut. -/
namespace StompBroker.Handshake
open CString SessionStorage Message ReaderThread

def websocketMagicKey : CStr := lit "258EAFA5-E914-47DA-95CA-C5AB0DC85B11"

/-- `create_accept_key`; `digest` stands for the base64 text of the SHA-1 sum. -/
def createAcceptKey (digest : CStr → CStr) (clientKey : CStr) : CStr := digest (clientKey ++ websocketMagicKey)

def OccursAt (needle s : CStr) (i : ℕ) : Prop := needle <+: s.drop i

instance (needle s : CStr) (i : ℕ) : Decidable (OccursAt needle s i) := inferInstanceAs (Decidable (needle <+: s.drop i))

section Search
variable {s needle : CStr} {i : ℕ}

theorem OccursAt.le (h : OccursAt needle s i) (hn : needle ≠ []) : i + needle.length ≤ s.length := by
  have hle := h.length_le
  have hpos := List.length_pos_of_ne_nil hn
  rw [List.length_drop] at hle
  omega

theorem strstr_eq_some_iff (hn : needle ≠ []) :
    strstr s needle = some i ↔ OccursAt needle s i ∧ ∀ j < i, ¬ OccursAt needle s j := by
  rw [strstr, List.find?_range_eq_some]
  simp only [List.isPrefixOf_iff_prefix, List.mem_range, Bool.not_eq_true', OccursAt]
  constructor
  · rintro ⟨hi, -, hbefore⟩
    exact ⟨hi, fun j hj hp => by simpa [List.isPrefixOf_iff_prefix.2 hp] using hbefore j hj⟩
  · rintro ⟨hi, hbefore⟩
    have hle : i + needle.length ≤ s.length := OccursAt.le hi hn
    refine ⟨hi, by omega, fun j hj => ?_⟩
    rw [← Bool.not_eq_true, List.isPrefixOf_iff_prefix]
    exact hbefore j hj

theorem exists_strstr (h : OccursAt needle s i) (hn : needle ≠ []) : ∃ j ≤ i, strstr s needle = some j := by
  have hex : ∃ j, OccursAt needle s j := ⟨i, h⟩
  refine ⟨Nat.find hex, Nat.find_min' hex h, (strstr_eq_some_iff hn).2 ⟨Nat.find_spec hex, fun j hj => Nat.find_min hex hj⟩⟩

end Search

abbrev crlf : CStr := [cr, nl]

abbrev endOfKey : CStr := lit "=="

/-- A request with a single header line for the key, after `pre` and before `post`. -/
structure KeyRequest (request pre key post : CStr) : Prop where
  split : request = pre ++ (websocketKeyHeader ++ (key ++ (crlf ++ post)))
  get : ∃ a b, request = a ++ (lit "GET /" ++ b) ∧ nl ∉ a
  lineStart : crlf <:+ pre
  only : ∀ i, OccursAt websocketKeyHeader request i → (i = 0 ∨ request[i - 1]? = some nl) → i = pre.length
  keyLine : nl ∉ key
  keyEnd : endOfKey <:+ key
  keyOnly : ∀ i, OccursAt endOfKey key i → i + 2 = key.length

/-- The first occurrence of the header's text has the key behind it, and no "==" starts before the end of that key. -/
def CutAtKey (request key : CStr) : Prop :=
  ∃ i, OccursAt websocketKeyHeader request i ∧ (∀ j < i, ¬ OccursAt websocketKeyHeader request j) ∧
    key <+: request.drop (i + websocketKeyHeader.length) ∧
    ∀ j, j + 2 < i + websocketKeyHeader.length + key.length → ¬ OccursAt endOfKey request j

section Requests
variable {request pre key post : CStr}

theorem isHttpRequest_of_get (h : ∃ a b, request = a ++ (lit "GET /" ++ b) ∧ nl ∉ a) (hnl : nl ∈ request) :
    isHttpRequest request = true := by
  obtain ⟨a, b, rfl, ha⟩ := h
  have hget : nl ∉ lit "GET /" := by decide
  have hoccurs : OccursAt (lit "GET /") (a ++ (lit "GET /" ++ b)) a.length := by
    rw [OccursAt, List.drop_left]
    exact List.prefix_append _ _
  obtain ⟨found, hle, hfound⟩ := exists_strstr hoccurs (by decide)
  obtain ⟨firstLn, hfirst⟩ : ∃ n, strchr (a ++ (lit "GET /" ++ b)) nl = some n :=
    Option.ne_none_iff_exists'.1 fun h => strchr_eq_none.1 h hnl
  have hlt : a.length < firstLn := by
    have hshift := hfirst
    rw [strchr_append ha, strchr_append hget, Option.map_map, Option.map_eq_some_iff] at hshift
    obtain ⟨n, -, hn⟩ := hshift
    have hfive : (lit "GET /").length = 5 := by decide
    simp only [Function.comp_apply, hfive] at hn
    omega
  simp only [isHttpRequest, hfirst, hfound, decide_eq_true_eq]
  omega

theorem KeyRequest.nl_mem_drop (h : KeyRequest request pre key post) {i : ℕ} (hi : i ≤ pre.length) :
    nl ∈ request.drop (i + websocketKeyHeader.length) := by
  have hlen : i + websocketKeyHeader.length ≤ (pre ++ websocketKeyHeader).length := by
    rw [List.length_append]
    omega
  rw [h.split, ← List.append_assoc, List.drop_append_of_le_length hlen]
  simp

theorem KeyRequest.occursAt (h : KeyRequest request pre key post) : OccursAt websocketKeyHeader request pre.length := by
  rw [OccursAt, h.split, List.drop_left]
  exact List.prefix_append _ _

theorem cutAtKey_of_parse (h : KeyRequest request pre key post) (hparse : parseSecWebsocketKey request = some key) :
    CutAtKey request key := by
  have hheader : websocketKeyHeader ≠ [] := by decide
  have hend : endOfKey ≠ [] := by decide
  have hlen : 2 ≤ key.length := h.keyEnd.length_le
  obtain ⟨i, hi, hparse⟩ := Option.map_eq_some_iff.1 hparse
  have hle : i ≤ pre.length := by
    obtain ⟨j, hj, hfound⟩ := exists_strstr h.occursAt hheader
    rw [hi, Option.some_inj] at hfound
    omega
  -- a key that is not cut brings the end of its line with it
  have hrest : request.drop (i + websocketKeyHeader.length) ≠ key := fun he => h.keyLine (he ▸ h.nl_mem_drop hle)
  cases heok : strstr request (lit "==") with
  | none =>
    rw [heok] at hparse
    exact absurd hparse hrest
  | some eok =>
    simp only [heok] at hparse
    split_ifs at hparse with hkey
    · obtain ⟨hoccurs, hbefore⟩ := (strstr_eq_some_iff hend).1 heok
      have hin : eok + 2 ≤ request.length := hoccurs.le hend
      have hkeylen : key.length = eok + 2 - (i + websocketKeyHeader.length) := by
        rw [← hparse, List.length_take, List.length_drop]
        omega
      obtain ⟨hfirst, hnone⟩ := (strstr_eq_some_iff hheader).1 hi
      refine ⟨i, hfirst, hnone, ?_, fun j hj => hbefore j (by omega)⟩
      rw [← hparse]
      exact List.take_prefix _ _
    · exact absurd hparse hrest

theorem occursAt_endOfKey {start : ℕ} (hend : endOfKey <:+ key) (hstarts : key <+: request.drop start) :
    OccursAt endOfKey request (start + key.length - 2) := by
  obtain ⟨stem, rfl⟩ := hend
  obtain ⟨rest, hrest⟩ := hstarts
  have hdrop : request.drop (start + (stem ++ endOfKey).length - 2) = endOfKey ++ rest := by
    have hlen : start + (stem ++ endOfKey).length - 2 = start + stem.length := by
      rw [List.length_append, show endOfKey.length = 2 from rfl]
      omega
    rw [hlen, ← List.drop_drop, ← hrest, List.append_assoc, List.drop_left]
  rw [OccursAt, hdrop]
  exact List.prefix_append _ _

theorem parse_of_cutAtKey (hkey : endOfKey <:+ key) (h : CutAtKey request key) :
    parseSecWebsocketKey request = some key := by
  have hlen : 2 ≤ key.length := hkey.length_le
  obtain ⟨i, hfirst, hnone, hstarts, hbefore⟩ := h
  have hi : strstr request websocketKeyHeader = some i := (strstr_eq_some_iff (by decide)).2 ⟨hfirst, hnone⟩
  have heok : strstr request (lit "==") = some (i + websocketKeyHeader.length + key.length - 2) :=
    (strstr_eq_some_iff (by decide)).2 ⟨occursAt_endOfKey hkey hstarts, fun j hj => hbefore j (by omega)⟩
  have hcut : i + websocketKeyHeader.length ≤ i + websocketKeyHeader.length + key.length - 2 + 2 := by omega
  have htake : i + websocketKeyHeader.length + key.length - 2 + 2 - (i + websocketKeyHeader.length) = key.length := by omega
  simp only [parseSecWebsocketKey, hi, Option.map_some, heok, if_pos hcut, htake]
  rw [← List.prefix_iff_eq_take.1 hstarts]

/-- The condition holds when neither text occurs in front of the header line. -/
theorem KeyRequest.cutAtKey (h : KeyRequest request pre key post)
    (hheader : ∀ j < pre.length, ¬ OccursAt websocketKeyHeader request j)
    (hend : ∀ j < pre.length, ¬ OccursAt endOfKey request j) : CutAtKey request key := by
  have hkey : request.drop (pre.length + websocketKeyHeader.length) = key ++ (crlf ++ post) := by
    rw [h.split, ← List.drop_drop, List.drop_left, List.drop_left]
  refine ⟨pre.length, h.occursAt, hheader, ?_, fun j hj hoccurs => ?_⟩
  · rw [hkey]
    exact List.prefix_append _ _
  · by_cases hfront : j < pre.length
    · exact hend j hfront hoccurs
    · obtain ⟨k, rfl⟩ : ∃ k, j = pre.length + k := ⟨j - pre.length, by omega⟩
      by_cases hname : k < websocketKeyHeader.length
      · -- the header has no such byte
        have hbyte : (websocketKeyHeader.drop k).head? = some 61 := by
          obtain ⟨rest, hrest⟩ := hoccurs
          rw [h.split, ← List.drop_drop, List.drop_left, List.drop_append_of_le_length hname.le] at hrest
          have hne : websocketKeyHeader.drop k ≠ [] := by
            rw [ne_eq, List.drop_eq_nil_iff]
            omega
          rw [← List.head?_append_of_ne_nil _ hne, ← hrest]
          rfl
        have hmem : (61 : UInt8) ∈ websocketKeyHeader := List.mem_of_mem_drop (List.mem_of_mem_head? hbyte)
        exact absurd hmem (by decide)
      · obtain ⟨m, rfl⟩ : ∃ m, k = websocketKeyHeader.length + m := ⟨k - websocketKeyHeader.length, by omega⟩
        rw [OccursAt, ← Nat.add_assoc, ← List.drop_drop, hkey, List.drop_append_of_le_length (by omega)] at hoccurs
        have hin : OccursAt endOfKey key m := by
          refine List.prefix_of_prefix_length_le hoccurs (List.prefix_append _ _) ?_
          rw [List.length_drop, show endOfKey.length = 2 from rfl]
          omega
        have := h.keyOnly m hin
        omega

/-- The handshake answers with the digest of the client's key and the magic key exactly when the key is cut at its end. -/
theorem handshake_uses_key_iff (h : KeyRequest request pre key post) :
    (parseSecWebsocketKey request = some key ∧ ∀ digest fd ts,
      wsInputFilterHandshake (createAcceptKey digest) ⟨fd, request, ts⟩ =
        some [sendAcceptResponse (digest (key ++ lit "258EAFA5-E914-47DA-95CA-C5AB0DC85B11")) fd]) ↔
      CutAtKey request key := by
  have hiff : parseSecWebsocketKey request = some key ↔ CutAtKey request key :=
    ⟨cutAtKey_of_parse h, parse_of_cutAtKey h.keyEnd⟩
  rw [← hiff, and_iff_left_iff_imp]
  intro hparse digest fd ts
  have hnl : nl ∈ request := by
    rw [h.split]
    simp
  rw [wsInputFilterHandshake, if_pos (isHttpRequest_of_get h.get hnl)]
  simp only [hparse]
  rfl

end Requests

theorem bounded_of_occursAt {needle s : CStr} {P : ℕ → Prop} (hn : needle ≠ [])
    (h : ∀ i < s.length, OccursAt needle s i → P i) (i : ℕ) (hi : OccursAt needle s i) : P i := by
  have hle := hi.le hn
  have hpos := List.length_pos_of_ne_nil hn
  exact h i (by omega) hi

def sampleKey : CStr := lit "dGhlIHNhbXBsZSBub25jZQ=="

def sampleRequest (front : CStr) : CStr := front ++ (websocketKeyHeader ++ (sampleKey ++ (crlf ++ crlf)))

theorem keyRequest_sample {front : CStr} (hget : lit "GET /" <+: front) (hline : crlf <:+ front)
    (honly : ∀ i < (sampleRequest front).length, OccursAt websocketKeyHeader (sampleRequest front) i →
      (i = 0 ∨ (sampleRequest front)[i - 1]? = some nl) → i = front.length) :
    KeyRequest (sampleRequest front) front sampleKey crlf where
  split := rfl
  get := by
    obtain ⟨rest, rfl⟩ := hget
    exact ⟨[], _, List.append_assoc _ _ _, by simp⟩
  lineStart := hline
  only := bounded_of_occursAt (by decide) honly
  keyLine := by decide
  keyEnd := by decide
  keyOnly := bounded_of_occursAt (by decide) (by decide)

theorem keyRequest_plain : KeyRequest (sampleRequest (lit "GET /chat HTTP/1.1\r\n")) (lit "GET /chat HTTP/1.1\r\n")
    sampleKey crlf :=
  keyRequest_sample (by decide) (by decide) (by decide)

theorem keyRequest_cookie : KeyRequest (sampleRequest (lit "GET /chat HTTP/1.1\r\nCookie: a==\r\n"))
    (lit "GET /chat HTTP/1.1\r\nCookie: a==\r\n") sampleKey crlf :=
  keyRequest_sample (by decide) (by decide) (by decide)

theorem handshake_uses_key_iff_plain :
    parseSecWebsocketKey (sampleRequest (lit "GET /chat HTTP/1.1\r\n")) = some sampleKey ∧ ∀ digest fd ts,
      wsInputFilterHandshake (createAcceptKey digest) ⟨fd, sampleRequest (lit "GET /chat HTTP/1.1\r\n"), ts⟩ =
        some [sendAcceptResponse (digest (sampleKey ++ lit "258EAFA5-E914-47DA-95CA-C5AB0DC85B11")) fd] :=
  (handshake_uses_key_iff keyRequest_plain).2 (keyRequest_plain.cutAtKey (by decide) (by decide))

/-- A cookie that ends in "==" leaves the key with the rest of the request behind it. -/
theorem handshake_key_not_cut :
    KeyRequest (sampleRequest (lit "GET /chat HTTP/1.1\r\nCookie: a==\r\n"))
        (lit "GET /chat HTTP/1.1\r\nCookie: a==\r\n") sampleKey crlf ∧
      parseSecWebsocketKey (sampleRequest (lit "GET /chat HTTP/1.1\r\nCookie: a==\r\n")) = some (sampleKey ++ crlf ++ crlf) ∧
      sampleKey ++ crlf ++ crlf ≠ sampleKey :=
  ⟨keyRequest_cookie, by decide, by decide⟩

end StompBroker.Handshake
