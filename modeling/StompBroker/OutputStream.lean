import StompBroker.FrameCodec
import StompBroker.WriterIteration

/-! The bytes of a socket on the side of the client. A websocket client reads the answer to its handshake and text
frames without a mask, any other client reads texts up to their NUL; both find the messages of the writers. -/
namespace StompBroker.OutputStream
open CString SessionStorage Message Dataframe TextFrame FrameCodec WriterThread WriteLoop WriterIteration
open Reassembly (Pending Readable encodeAll exists_split)
variable {α : Type}

/-- The length of a payload for the length byte of an unmasked frame, and what follows the length. -/
def payloadLength (code : ℕ) (rest : List UInt8) : Option (ℕ × List UInt8) :=
  if code < 126 then some (code, rest)
  else if code = 126 then (slice rest 0 2).map fun sz => (hostValue sz.reverse, rest.drop 2)
  else if code = 127 then (slice rest 0 8).map fun sz => (hostValue sz.reverse, rest.drop 8)
  else none

/-- A whole text frame at the front; its text ends at the first NUL. -/
def textFrame : List UInt8 → Option (CStr × List UInt8)
  | first :: code :: rest =>
      if first = 0x81 then do
        let (n, rest) ← payloadLength code.toNat rest
        let payload ← slice rest 0 n
        return (payload.takeWhile (· != 0), rest.drop n)
      else none
  | _ => none

/-- The head of an HTTP answer at the front: everything up to the first empty line. -/
def httpHead : List UInt8 → Option (CStr × List UInt8)
  | 13 :: 10 :: 13 :: 10 :: rest => some ([13, 10, 13, 10], rest)
  | b :: rest => (httpHead rest).map fun p => (b :: p.1, p.2)
  | [] => none

/-- What a websocket client finds at the front: the head of an answer, or a text frame. -/
def websocketItem (bytes : List UInt8) : Option (CStr × List UInt8) :=
  if bytes.head? = some 72 then httpHead bytes else textFrame bytes

def plainText (bytes : List UInt8) : Option (CStr × List UInt8) :=
  if 0 ∈ bytes then some (bytes.take (bytes.idxOf 0), bytes.drop (bytes.idxOf 0 + 1)) else none

/-- What a client takes out of its stream, and what is left. -/
def clientReads (websocket : Bool) : List UInt8 → List CStr × List UInt8 :=
  Reassembly.read (if websocket then websocketItem else plainText)

/-- An answer to a handshake: it goes out unframed, and its first empty line ends it. -/
def HttpAnswer (m : MessageWithFrameLen) : Prop :=
  sessionIsEncoded m.fd = false ∧ strncasecmpEq m.content (lit "HTTP") 4 = true ∧ m.content.head? = some 72 ∧
    httpHead m.content = some (m.content, [])

instance (m : MessageWithFrameLen) : Decidable (HttpAnswer m) := inferInstanceAs (Decidable (_ ∧ _))

/-- A message for a client of one kind, as the processor makes them. -/
structure Proper (websocket : Bool) (m : MessageWithFrameLen) : Prop where
  nul_free : (0 : UInt8) ∉ m.content
  short : m.content.length + 11 < 2 ^ 31
  framed : websocket = true → sessionIsEncoded m.fd = true ∨ HttpAnswer m
  plain : websocket = false → sessionIsEncoded m.fd = false ∧ strncasecmpEq m.content (lit "HTTP") 4 = false

theorem slice_append {block front : List UInt8} {n : ℕ} (h : slice block 0 n = some front) (more : List UInt8) :
    slice (block ++ more) 0 n = some front ∧ (block ++ more).drop n = block.drop n ++ more := by
  unfold slice at h ⊢
  split_ifs at h with hle
  rw [Option.some_inj] at h
  have hlen : n ≤ block.length := by omega
  rw [if_pos (by rw [List.length_append]; omega), List.drop_zero, List.take_append_of_le_length hlen,
    List.drop_append_of_le_length hlen, ← h, List.drop_zero]
  exact ⟨rfl, rfl⟩

theorem slice_front (front rest : List UInt8) {n : ℕ} (h : front.length = n) :
    slice (front ++ rest) 0 n = some front ∧ (front ++ rest).drop n = rest := by
  subst h
  simp [slice]

theorem payloadLength_append {code n : ℕ} {rest behind : List UInt8} (h : payloadLength code rest = some (n, behind))
    (more : List UInt8) : payloadLength code (rest ++ more) = some (n, behind ++ more) := by
  have hfield : ∀ k, (slice rest 0 k).map (fun sz => (hostValue sz.reverse, rest.drop k)) = some (n, behind) →
      (slice (rest ++ more) 0 k).map (fun sz => (hostValue sz.reverse, (rest ++ more).drop k)) = some (n, behind ++ more) := by
    intro k hk
    obtain ⟨sz, hsz, hk⟩ := Option.map_eq_some_iff.1 hk
    obtain ⟨hlong, hdrop⟩ := slice_append hsz more
    simp only [Prod.mk.injEq] at hk
    rw [hlong, Option.map_some, hdrop, hk.1, hk.2]
  unfold payloadLength at h ⊢
  split_ifs at h ⊢
  · simp only [Option.some.injEq, Prod.mk.injEq] at h
    rw [h.1, h.2]
  · exact hfield 2 h
  · exact hfield 8 h

theorem textFrame_append {bytes rest : List UInt8} {text : CStr} (h : textFrame bytes = some (text, rest)) (more : List UInt8) :
    textFrame (bytes ++ more) = some (text, rest ++ more) := by
  match bytes, h with
  | first :: code :: bytes, h =>
    simp only [textFrame, List.cons_append] at h ⊢
    split_ifs at h ⊢
    obtain ⟨⟨n, behind⟩, hlen, h⟩ := Option.bind_eq_some_iff.1 h
    obtain ⟨payload, hslice, h⟩ := Option.bind_eq_some_iff.1 h
    obtain ⟨hlong, hdrop⟩ := slice_append hslice more
    simp only [Option.pure_def, Option.some.injEq, Prod.mk.injEq] at h
    rw [payloadLength_append hlen more, Option.bind_eq_bind, Option.bind_some, hlong, Option.bind_eq_bind, Option.bind_some,
      Option.pure_def, hdrop, h.1, h.2]

theorem textFrame_payload {code : UInt8} {field : List UInt8} {s : CStr} (hs : (0 : UInt8) ∉ s) (r : List UInt8)
    (hlen : payloadLength code.toNat (field ++ (s ++ [0] ++ r)) = some (s.length + 1, s ++ [0] ++ r)) :
    textFrame (0x81 :: code :: (field ++ (s ++ [0]) ++ r)) = some (s, r) := by
  obtain ⟨hslice, hdrop⟩ := slice_front (s ++ [0]) r (n := s.length + 1) (by simp)
  have htext : (s ++ [0]).takeWhile (· != 0) = s := by
    rw [List.takeWhile_append_of_pos fun c hc => by simpa using fun h : c = 0 => hs (h ▸ hc)]
    simp
  rw [textFrame, if_pos rfl, List.append_assoc field, hlen, Option.bind_eq_bind, Option.bind_some]
  dsimp only
  rw [hslice, Option.bind_eq_bind, Option.bind_some, Option.pure_def, htext, hdrop]

theorem textFrame_encode {s : CStr} (hs : (0 : UInt8) ∉ s) (hlen : s.length + 1 < 2 ^ 64) (r : List UInt8) :
    textFrame (encodeWebsocketFrame s ++ r) = some (s, r) := by
  unfold encodeWebsocketFrame
  dsimp only
  split_ifs with h1 h2
  · refine @textFrame_payload _ [] s hs r ?_
    have hcode : (UInt8.ofNat ((s.length + 1) % 128)).toNat = s.length + 1 := by
      rw [UInt8.toNat_ofNat']
      omega
    rw [hcode, payloadLength, if_pos h1]
    rfl
  · refine textFrame_payload hs r ?_
    obtain ⟨hslice, hdrop⟩ := slice_front (hostBytes 2 (htons (s.length + 1))) (s ++ [0] ++ r) (length_hostBytes _ _)
    have hvalue : hostValue (hostBytes 2 (htons (s.length + 1))).reverse = s.length + 1 := by
      rw [hostBytes_htons h2, List.reverse_reverse, hostValue_hostBytes (by omega)]
    rw [payloadLength, if_neg (by decide), if_pos (by decide), hslice, Option.map_some, hdrop, hvalue]
  · refine textFrame_payload hs r ?_
    obtain ⟨hslice, hdrop⟩ := slice_front (hostBytes 8 (ntohl64 (s.length + 1))) (s ++ [0] ++ r) (length_hostBytes _ _)
    have hvalue : hostValue (hostBytes 8 (ntohl64 (s.length + 1))).reverse = s.length + 1 := by
      rw [hostBytes_ntohl64 hlen, List.reverse_reverse, hostValue_hostBytes (by omega)]
    rw [payloadLength, if_neg (by decide), if_neg (by decide), if_pos (by decide), hslice, Option.map_some, hdrop, hvalue]

theorem httpHead_length {bytes : List UInt8} {p : CStr × List UInt8} (h : httpHead bytes = some p) : 4 ≤ bytes.length := by
  induction bytes using httpHead.induct generalizing p with
  | case1 behind => simp
  | case2 b behind hno ih =>
    rw [httpHead] at h
    · obtain ⟨q, hq, -⟩ := Option.map_eq_some_iff.1 h
      exact (ih hq).trans (by simp)
    · exact hno
  | case3 => cases h

/-- An empty line that was found stays the first one. -/
theorem httpHead_append {bytes rest : List UInt8} {text : CStr} (h : httpHead bytes = some (text, rest)) (more : List UInt8) :
    httpHead (bytes ++ more) = some (text, rest ++ more) := by
  induction bytes using httpHead.induct generalizing text with
  | case1 behind =>
    simp only [httpHead, Option.some.injEq, Prod.mk.injEq] at h
    rw [← h.1, ← h.2]
    rfl
  | case2 b behind hno ih =>
    rw [httpHead] at h
    swap
    · exact hno
    obtain ⟨⟨front, behind'⟩, hq, hpair⟩ := Option.map_eq_some_iff.1 h
    obtain ⟨rfl, rfl⟩ := Prod.mk.inj hpair
    have hlen := httpHead_length hq
    have hno' : ∀ rest, b = 13 → behind ++ more = 10 :: 13 :: 10 :: rest → False := by
      intro rest hb hrest
      match behind, hlen with
      | x :: y :: z :: _, _ =>
        simp only [List.cons_append, List.cons.injEq] at hrest
        obtain ⟨rfl, rfl, rfl, -⟩ := hrest
        exact hno _ hb rfl
    rw [List.cons_append, httpHead, ih hq]
    · rfl
    · exact hno'
  | case3 => cases h

theorem websocketItem_append {bytes rest : List UInt8} {text : CStr} (h : websocketItem bytes = some (text, rest))
    (more : List UInt8) : websocketItem (bytes ++ more) = some (text, rest ++ more) := by
  unfold websocketItem at h ⊢
  cases bytes with
  | nil => simp [textFrame] at h
  | cons b bytes =>
    rw [List.cons_append, List.head?_cons] at *
    split_ifs at h ⊢ with hb
    · exact httpHead_append h more
    · exact textFrame_append h more

theorem plainText_append {bytes rest : List UInt8} {text : CStr} (h : plainText bytes = some (text, rest)) (more : List UInt8) :
    plainText (bytes ++ more) = some (text, rest ++ more) := by
  unfold plainText at h ⊢
  split_ifs at h with hmem
  simp only [Option.some.injEq, Prod.mk.injEq] at h
  have hlt := List.idxOf_lt_length_of_mem hmem
  rw [if_pos (List.mem_append_left _ hmem), List.idxOf_append_of_mem hmem, List.take_append_of_le_length hlt.le,
    List.drop_append_of_le_length hlt, h.1, h.2]

theorem plainText_text {s : CStr} (hs : (0 : UInt8) ∉ s) (r : List UInt8) : plainText (s ++ [0] ++ r) = some (s, r) := by
  have hidx : (s ++ [0] ++ r).idxOf 0 = s.length := by
    rw [List.append_assoc, List.idxOf_append_of_notMem hs]
    simp
  rw [plainText, if_pos (by simp), hidx, List.append_assoc, List.take_left, ← List.drop_drop, List.drop_left]
  rfl

theorem websocketItem_encode {s : CStr} (hs : (0 : UInt8) ∉ s) (hlen : s.length + 1 < 2 ^ 64) (r : List UInt8) :
    websocketItem (encodeWebsocketFrame s ++ r) = some (s, r) := by
  have hfirst : (encodeWebsocketFrame s ++ r).head? = some 0x81 := by
    unfold encodeWebsocketFrame
    dsimp only
    split_ifs <;> rfl
  rw [websocketItem, hfirst, if_neg (by decide)]
  exact textFrame_encode hs hlen r

/-- Both kinds of clients read the wire form of the messages. -/
theorem readable (websocket : Bool) :
    Readable (Proper websocket) wsOutputFilter MessageWithFrameLen.content (if websocket then websocketItem else plainText) where
  nonempty := wsOutputFilter_ne_nil
  empty := by cases websocket <;> rfl
  whole m r hm := by
    have hshort := hm.short
    cases websocket with
    | true =>
      rcases hm.framed rfl with hkind | ⟨hkind, hhttp, hfirst, hhead⟩
      · rw [wsOutputFilter, if_pos hkind]
        exact websocketItem_encode hm.nul_free (by omega) r
      · rw [wsOutputFilter, hkind, hhttp]
        have hne : m.content ≠ [] := fun hnil => by simp [hnil] at hfirst
        have hfirst' : (m.content ++ r).head? = some 72 := by rw [List.head?_append_of_ne_nil _ hne, hfirst]
        change websocketItem (m.content ++ r) = _
        rw [websocketItem, if_pos hfirst']
        exact httpHead_append hhead r
    | false =>
      obtain ⟨hkind, hplain⟩ := hm.plain rfl
      rw [wsOutputFilter, hkind, hplain]
      exact plainText_text hm.nul_free r
  settled p q x r h := by
    cases websocket with
    | true => exact websocketItem_append h q
    | false => exact plainText_append h q

/-- What an iteration of a writer meets: the queue, the session table at each lookup and the answers of the socket. -/
structure Round (α : Type) where
  queue : List α
  tables : ℕ → Storage
  answers : Socket
  clock : ℕ

def Round.iteration (msg : α → MessageWithFrameLen) (bufferSize : ℕ) (r : Round α) : Option (Iteration α) :=
  writerThread msg bufferSize r.queue r.tables r.answers r.clock

def Round.copied (msg : α → MessageWithFrameLen) (bufferSize : ℕ) (r : Round α) : List MessageWithFrameLen :=
  let batch := (tsDequeueMultipleMessagesForSameFd msg r.queue bufferSize).1
  ((fillBuffer msg batch (lookups msg r.tables batch)).getD []).map msg

def Round.sent (msg : α → MessageWithFrameLen) (bufferSize : ℕ) (r : Round α) : List UInt8 :=
  ((r.iteration msg bufferSize).map fun it => accepted it.buffer it.attempts).getD []

section Rounds
variable {msg : α → MessageWithFrameLen} {bufferSize : ℕ} {websocket : Bool}

theorem writeBuffer_sent (answers : Socket) (clock : ℕ) (buffer : List UInt8) :
    ((writeBuffer answers clock buffer).2 = 0 ∧ accepted buffer (writeBuffer answers clock buffer).1 = buffer) ∨
    ((writeBuffer answers clock buffer).2 = 1 ∧ ∃ rest, rest ≠ [] ∧
      accepted buffer (writeBuffer answers clock buffer).1 ++ rest = buffer) := by
  by_cases hb : buffer = []
  · subst hb
    exact .inl ⟨rfl, rfl⟩
  · simpa using (writeBuffer_writes answers clock hb).accepted_eq

theorem Round.sent_cases {r : Round α} {it : Iteration α} (h : r.iteration msg bufferSize = some it) :
    (it.closes = 0 ∧ r.sent msg bufferSize = encodeAll wsOutputFilter (r.copied msg bufferSize)) ∨
    (it.closes = 1 ∧ ∃ rest, rest ≠ [] ∧
      r.sent msg bufferSize ++ rest = encodeAll wsOutputFilter (r.copied msg bufferSize)) := by
  rw [Round.sent, h, Option.map_some, Option.getD_some, Round.copied]
  rw [Round.iteration, writerThread] at h
  dsimp only at h ⊢
  rw [copyLoop_eq] at h
  split_ifs at h
  cases hfill : fillBuffer msg (tsDequeueMultipleMessagesForSameFd msg r.queue bufferSize).1
    (lookups msg r.tables (tsDequeueMultipleMessagesForSameFd msg r.queue bufferSize).1) with
  | none =>
    rw [hfill] at h
    obtain rfl := Option.some_inj.1 h
    exact .inl ⟨rfl, rfl⟩
  | some copied =>
    have hwire : encodeAll wsOutputFilter (copied.map msg) = copied.flatMap fun x => wsOutputFilter (msg x) := by
      simp [encodeAll, List.flatMap_map]
    have hcases := writeBuffer_sent r.answers r.clock (copied.flatMap fun x => wsOutputFilter (msg x))
    rw [hfill] at h
    obtain rfl := Option.some_inj.1 h
    rw [Option.getD_some, hwire]
    exact hcases

/-- A client reads the messages of all writes to its socket in order, as long as no copy runs over the write
buffer. When the last write is given up its first messages are read and not all of them. -/
theorem client_reads_rounds {rounds : List (Round α)} {last : Round α} {ended : Iteration α}
    (hproper : ∀ r ∈ rounds ++ [last], ∀ m ∈ r.copied msg bufferSize, Proper websocket m)
    (hopen : ∀ r ∈ rounds, ∃ it, r.iteration msg bufferSize = some it ∧ it.closes = 0)
    (hlast : last.iteration msg bufferSize = some ended) :
    ∃ front back rest, last.copied msg bufferSize = front ++ back ∧
      clientReads websocket ((rounds ++ [last]).flatMap fun r => r.sent msg bufferSize) =
        ((rounds.flatMap (fun r => r.copied msg bufferSize) ++ front).map MessageWithFrameLen.content, rest) ∧
      (ended.closes = 0 → back = [] ∧ rest = []) ∧ (ended.closes = 1 → back ≠ []) := by
  have hrounds : (rounds.flatMap fun r => r.sent msg bufferSize) =
      encodeAll wsOutputFilter (rounds.flatMap fun r => r.copied msg bufferSize) := by
    rw [encodeAll, List.flatMap_assoc]
    refine List.flatMap_congr fun r hr => ?_
    obtain ⟨it, hit, hzero⟩ := hopen r hr
    rcases Round.sent_cases hit with ⟨-, hsent⟩ | ⟨hc, -⟩
    · exact hsent
    · rw [hzero] at hc
      cases hc
  have hcases := Round.sent_cases hlast
  have hprefix : last.sent msg bufferSize <+: encodeAll wsOutputFilter (last.copied msg bufferSize) := by
    rcases hcases with ⟨-, hsent⟩ | ⟨-, rest, -, hsent⟩
    · exact hsent ▸ List.prefix_rfl
    · exact ⟨rest, hsent⟩
  obtain ⟨front, back, rest, hcopied, hsent, hpending⟩ := exists_split hprefix
  have hall : ∀ m ∈ (rounds.flatMap (fun r => r.copied msg bufferSize) ++ front) ++ back, Proper websocket m := by
    intro m hm
    rw [List.append_assoc, ← hcopied] at hm
    rcases List.mem_append.1 hm with hm | hm
    · obtain ⟨r, hr, hm⟩ := List.mem_flatMap.1 hm
      exact hproper r (List.mem_append_left _ hr) m hm
    · exact hproper last (by simp) m hm
  refine ⟨front, back, rest, hcopied, ?_, fun hc => ?_, fun hc hnil => ?_⟩
  · rw [List.flatMap_append, hrounds, List.flatMap_singleton, hsent, ← List.append_assoc, ← Reassembly.encodeAll_append]
    exact (readable websocket).read_eq hall hpending
  · rcases hcases with ⟨-, hfull⟩ | ⟨hone, -⟩
    · rw [hfull, hcopied, Reassembly.encodeAll_append, List.append_cancel_left_eq] at hsent
      exact hpending.eq_nil wsOutputFilter_ne_nil hsent.symm
    · rw [hc] at hone
      cases hone
  · subst hnil
    have hrest : rest = [] := by
      rcases hpending with hrest | ⟨_, _, hno, -⟩
      · exact hrest
      · cases hno
    rcases hcases with ⟨hzero, -⟩ | ⟨-, more, hne, hcut⟩
    · rw [hc] at hzero
      cases hzero
    · rw [hsent, hrest, List.append_nil, hcopied, List.append_nil] at hcut
      exact hne (by simpa using hcut)

def openTables : ℕ → Storage := fun _ => oneClient 5

def handshakeAnswer : CStr := lit "HTTP/1.1 101 Switching Protocols\r\nSec-WebSocket-Accept: s3pPLMBiTxaQ9kYGzzhZRbK+xOo=\r\n\r\n"

/-- The answer to a handshake, for the session before its flag is set. -/
def openRound : Round MessageWithFrameLen := ⟨[messageCreateWithFrameLen 5 handshakeAnswer], openTables, eagerSocket, 0⟩

/-- Two texts of the websocket session; the socket takes nothing any more. -/
def blockedRound : Round MessageWithFrameLen :=
  ⟨[messageCreateWithFrameLen (sessionSetEncoded 5) (lit "MESSAGE\n\nx"),
    messageCreateWithFrameLen (sessionSetEncoded 5) (lit "MESSAGE\n\ny")],
    openTables, fun _ _ => none, 1⟩

theorem client_reads_rounds_blocked : ∃ ended, blockedRound.iteration id 10000 = some ended ∧ ended.closes = 1 ∧
    ∃ front back rest, blockedRound.copied id 10000 = front ++ back ∧
      clientReads true (([openRound] ++ [blockedRound]).flatMap fun r => r.sent id 10000) =
        (([openRound].flatMap (fun r => r.copied id 10000) ++ front).map MessageWithFrameLen.content, rest) ∧ back ≠ [] := by
  have hcopied : ∀ r ∈ [openRound] ++ [blockedRound], ∀ m ∈ r.copied id 10000,
      (0 : UInt8) ∉ m.content ∧ m.content.length + 11 < 2 ^ 31 ∧ (sessionIsEncoded m.fd = true ∨ HttpAnswer m) := by decide
  have hproper : ∀ r ∈ [openRound] ++ [blockedRound], ∀ m ∈ r.copied id 10000, Proper true m := by
    intro r hr m hm
    obtain ⟨hnul, hshort, hkind⟩ := hcopied r hr m hm
    exact ⟨hnul, hshort, fun _ => hkind, nofun⟩
  have hopen : ∃ it, openRound.iteration id 10000 = some it ∧ it.closes = 0 := Option.map_eq_some_iff.1 (by decide +kernel)
  have hlast : ∃ it, blockedRound.iteration id 10000 = some it ∧ it.closes = 1 := Option.map_eq_some_iff.1 (by decide +kernel)
  obtain ⟨ended, hended, hone⟩ := hlast
  obtain ⟨front, back, rest, hback, hreads, -, hgiven⟩ := client_reads_rounds hproper
    (fun r hr => by rw [List.mem_singleton.1 hr]; exact hopen) hended
  exact ⟨ended, hended, hone, front, back, rest, hback, hreads, hgiven hone⟩

end Rounds

end StompBroker.OutputStream
