import StompBroker.StompParser
import StompBroker.HeaderMap
import Mathlib.Data.List.TakeWhile

/-! The text of a frame, read by lines. The parser works on pointers into the text; what it finds
depends on the lines behind the first one alone: the header lines up to the first other line, and
the text behind that line. -/
namespace StompBroker.FrameText
open CString AssociativeArray Message StompParser HeaderMap

def beforeCr (line : CStr) : CStr := line.takeWhile (· != cr)

/-- The pair of a header line, `none` for a line without a colon before its carriage return. -/
def headerOf (line : CStr) : Option (CStr × CStr) :=
  (strchr (beforeCr line) colon).map fun sep => ((beforeCr line).take sep, (beforeCr line).drop (sep + 1))

/-- The headers and the body that the lines behind the first one stand for. A text that ends in the
last line, which has no line feed, has no body; this line counts as a header only with a carriage
return. -/
def headerBlock : List CStr → List (CStr × CStr) × Option CStr
  | [] => ([], none)
  | [last] => (if cr ∈ last then (headerOf last).toList else [], none)
  | line :: next :: rows =>
      match headerOf line with
      | none => ([], some ([nl].intercalate (next :: rows)))
      | some p => (p :: (headerBlock (next :: rows)).1, (headerBlock (next :: rows)).2)

def rows (content : CStr) : List CStr := (content.splitOn nl).tail

def frameHeaders (content : CStr) : List (CStr × CStr) := (headerBlock (rows content)).1

def frameBody (content : CStr) : Option CStr := (headerBlock (rows content)).2

/-- The text behind the last line feed, or all of it. -/
def lastRow (content : CStr) : CStr := (content.splitOn nl).getLastD []

def putHeaders (pm : ParsedMessage) (pairs : List (CStr × CStr)) : ParsedMessage :=
  pairs.foldl (fun pm p => putHeader pm p.1 p.2) pm

/-- A text is its last line, or a line, a line feed and a shorter text. -/
theorem rows_induction {P : CStr → Prop} (last : ∀ text, nl ∉ text → P text)
    (row : ∀ line rest, nl ∉ line → P rest → P (line ++ nl :: rest)) (text : CStr) : P text := by
  obtain ⟨n, hn⟩ : ∃ n, text.length = n := ⟨_, rfl⟩
  induction n using Nat.strong_induction_on generalizing text with
  | _ n ih =>
    by_cases hnl : nl ∈ text
    · obtain ⟨line, rest, rfl, hline⟩ := List.eq_append_cons_of_mem hnl
      refine row line rest hline (ih rest.length ?_ rest rfl)
      rw [← hn, List.length_append, List.length_cons]
      omega
    · exact last text hnl

theorem headerBlock_line (line text : CStr) :
    headerBlock (line :: text.splitOn nl) =
      match headerOf line with
      | none => ([], some text)
      | some p => (p :: (headerBlock (text.splitOn nl)).1, (headerBlock (text.splitOn nl)).2) := by
  obtain ⟨next, more, hs⟩ := List.exists_cons_of_ne_nil (List.splitOn_ne_nil nl text)
  rw [hs, headerBlock, ← hs, List.intercalate_splitOn]

/-- Some line behind the first one, with its line feed, has no colon before its carriage return. -/
def BlockEnds (content : CStr) : Prop := ∃ line ∈ (rows content).dropLast, colon ∉ beforeCr line

instance (content : CStr) : Decidable (BlockEnds content) :=
  inferInstanceAs (Decidable (∃ line ∈ (rows content).dropLast, colon ∉ beforeCr line))

theorem headerOf_eq_none {line : CStr} : headerOf line = none ↔ colon ∉ beforeCr line := by
  rw [headerOf, Option.map_eq_none_iff, strchr_eq_none]

theorem headerBlock_body (lines : List CStr) :
    (headerBlock lines).2 = none ↔ ∀ line ∈ lines.dropLast, colon ∈ beforeCr line := by
  fun_induction headerBlock lines with
  | case1 => simp
  | case2 last => simp
  | case3 line next rows hnone =>
    have hline := headerOf_eq_none.1 hnone
    simp [hline]
  | case4 line next rows p hsome ih =>
    have hline : colon ∈ beforeCr line := by
      by_contra hno
      simp [headerOf_eq_none.2 hno] at hsome
    rw [List.dropLast_cons_cons, List.forall_mem_cons, ih]
    exact ⟨fun h => ⟨hline, h⟩, fun h => h.2⟩

theorem blockEnds_iff {content : CStr} : BlockEnds content ↔ frameBody content ≠ none := by
  rw [Ne, frameBody, headerBlock_body, BlockEnds]
  simp only [not_forall, exists_prop]

section Search
variable {text line rest : CStr} {c : UInt8}

theorem strchr_of_mem (h : c ∈ text) : strchr text c = some (text.takeWhile (· != c)).length := by
  obtain ⟨front, back, rfl, hfront⟩ := List.eq_append_cons_of_mem h
  have htake : (front ++ c :: back).takeWhile (· != c) = front := by
    rw [List.takeWhile_append_of_pos fun b hb => bne_iff_ne.2 (ne_of_mem_of_not_mem hb hfront)]
    simp
  rw [strchr_append_cons hfront, htake]

theorem strchr_take (n : ℕ) : strchr (text.take n) c = (strchr text c).filter (· < n) := by
  rw [strchr, strchr, List.findIdx?_take]
  cases List.findIdx? (fun x => x == c) text <;> simp [Option.filter, Option.guard]

theorem filter_strchr_append {n : ℕ} (hn : n ≤ text.length) (more : CStr) :
    (strchr (text ++ more) c).filter (· < n) = (strchr text c).filter (· < n) := by
  rw [← strchr_take, ← strchr_take, List.take_append_of_le_length hn]

theorem beforeCr_eq_take (line : CStr) : beforeCr line = line.take (beforeCr line).length :=
  List.prefix_iff_eq_take.1 (List.takeWhile_prefix _)

theorem beforeCr_length_le (line : CStr) : (beforeCr line).length ≤ line.length :=
  (List.takeWhile_prefix _).length_le

theorem beforeCr_of_not_mem (h : cr ∉ line) : beforeCr line = line :=
  List.takeWhile_eq_self_iff.2 fun _ hb => bne_iff_ne.2 (ne_of_mem_of_not_mem hb h)

theorem strchr_cr (h : cr ∈ line) : strchr line cr = some (beforeCr line).length := strchr_of_mem h

theorem headerOf_eq (line : CStr) :
    headerOf line = ((strchr line colon).filter (· < (beforeCr line).length)).map fun sep =>
      (line.take sep, (beforeCr line).drop (sep + 1)) := by
  have hs : strchr (beforeCr line) colon = (strchr line colon).filter (· < (beforeCr line).length) := by
    conv_lhs => rw [beforeCr_eq_take line]
    exact strchr_take _
  rw [headerOf, hs]
  cases hc : strchr line colon with
  | none => rfl
  | some sep =>
    by_cases hlt : sep < (beforeCr line).length
    · have htake : (beforeCr line).take sep = line.take sep := by
        conv_lhs => rw [beforeCr_eq_take line]
        rw [List.take_take, min_eq_left hlt.le]
      simp [Option.filter, hlt, htake]
    · simp [Option.filter, hlt]

theorem headerOf_found {sep : ℕ} (htext : line <+: text)
    (hs : (strchr line colon).filter (· < (beforeCr line).length) = (some sep).filter (· < (beforeCr line).length)) :
    headerOf line = if sep < (beforeCr line).length then
      some (text.take sep, (text.take (beforeCr line).length).drop (sep + 1)) else none := by
  obtain ⟨rest, rfl⟩ := htext
  have hle := beforeCr_length_le line
  rw [headerOf_eq, hs]
  by_cases hlt : sep < (beforeCr line).length
  · have hkey : (line ++ rest).take sep = line.take sep := List.take_append_of_le_length (by omega)
    have hvalue : (line ++ rest).take (beforeCr line).length = beforeCr line := by
      rw [List.take_append_of_le_length hle]
      exact (beforeCr_eq_take line).symm
    simp [Option.filter, hlt, hkey, hvalue]
  · simp [Option.filter, hlt]

end Search

section Lines
variable {line rest text : CStr} (past : List UInt8) (pm : ParsedMessage)

theorem nextRow_row (h : nl ∉ line) (rest : CStr) : nextRow (line ++ nl :: rest) = some rest := by
  have hn : strchr (line ++ nl :: rest) nl = some line.length := strchr_append_cons h rest
  have hne : line ++ nl :: rest ≠ [] := by simp
  have hcr : nl ≠ cr := by decide
  simp [nextRow, hn, hne, hcr]

theorem nextRow_last (h : nl ∉ text) : nextRow text = none := by
  rw [nextRow, strchr_eq_none.2 h]
  split_ifs <;> rfl

theorem lineEnd_row (h : nl ∉ line) (rest : CStr) :
    lineEnd (line ++ nl :: rest) = some (beforeCr line).length := by
  have hn : strchr (line ++ nl :: rest) nl = some line.length := strchr_append_cons h rest
  by_cases hcr : cr ∈ line
  · have hc : strchr (line ++ nl :: rest) cr = some (beforeCr line).length := by
      obtain ⟨front, back, rfl, hfront⟩ := List.eq_append_cons_of_mem hcr
      rw [List.append_assoc, List.cons_append, strchr_append_cons hfront]
      have hmem : cr ∈ front ++ cr :: back := hcr
      have hs := strchr_of_mem hmem
      rw [strchr_append_cons hfront] at hs
      exact hs
    have hlt := (not_mem_take_of_strchr (strchr_of_mem hcr)).1
    simp only [lineEnd, hn, hc]
    rw [if_pos (by simpa [beforeCr] using hlt)]
  · have hc : strchr (line ++ nl :: rest) cr = (strchr (nl :: rest) cr).map (· + line.length) := strchr_append hcr _
    rw [beforeCr_of_not_mem hcr]
    cases hr : strchr (nl :: rest) cr with
    | none => simp [lineEnd, hn, hc, hr]
    | some c =>
      simp only [lineEnd, hn, hc, hr, Option.map_some]
      rw [if_neg (by omega)]

theorem memchrColon_row (line rest : CStr) :
    memchrColon past (line ++ nl :: rest) (some rest) = some (strchr line colon) := by
  have hlen : (line ++ nl :: rest).length - rest.length = (line ++ [nl]).length := by
    simp
    omega
  have hsplit : line ++ nl :: rest = (line ++ [nl]) ++ rest := by simp
  have hnl : strchr [nl] colon = none := by decide
  rw [memchrColon, hlen, hsplit, List.take_left, strchr, List.findIdx?_append]
  simp [strchr, nl, colon]

theorem parseHeaderLine_row (h : nl ∉ line) (rest : CStr) :
    parseHeaderLine past pm (line ++ nl :: rest) =
      match headerOf line with
      | none => .stop pm (some rest)
      | some p => .next (putHeader pm p.1 p.2) rest := by
  simp only [parseHeaderLine, nextRow_row h rest, memchrColon_row, lineEnd_row h rest]
  cases hc : strchr line colon with
  | none => simp [headerOf_eq, hc]
  | some sep =>
    rw [headerOf_found (List.prefix_append line (nl :: rest)) (by rw [hc])]
    by_cases hlt : sep < (beforeCr line).length
    · simp [hlt]
    · simp [hlt]

/-- The last line: the search for a colon runs on behind the text. -/
theorem parseHeaderLine_last (h : nl ∉ text) :
    parseHeaderLine past pm text =
      if colon ∈ text ++ 0 :: past then
        .stop (putHeaders pm (if cr ∈ text then (headerOf text).toList else [])) none
      else .fault := by
  have hend : lineEnd text = strchr text cr := by rw [lineEnd, strchr_eq_none.2 h]
  simp only [parseHeaderLine, nextRow_last h, memchrColon, hend]
  by_cases hcol : colon ∈ text ++ 0 :: past
  swap
  · rw [strchr_eq_none.2 hcol, if_neg hcol]
    rfl
  rw [if_pos hcol]
  obtain ⟨sep, hsep⟩ := Option.ne_none_iff_exists'.1 fun hn => strchr_eq_none.1 hn hcol
  simp only [hsep, Option.map_some]
  by_cases hcr : cr ∈ text
  swap
  · rw [strchr_eq_none.2 hcr, if_neg hcr]
    rfl
  have hle := beforeCr_length_le text
  -- a colon before the carriage return is the first one of the text
  have hhead : (strchr text colon).filter (· < (beforeCr text).length) =
      (some sep).filter (· < (beforeCr text).length) := by rw [← filter_strchr_append hle (0 :: past), hsep]
  rw [strchr_cr hcr, if_pos hcr, headerOf_found List.prefix_rfl hhead]
  by_cases hlt : sep < (beforeCr text).length
  · simp [hlt, putHeaders]
  · simp [hlt, putHeaders]

end Lines

section Message
variable (past : List UInt8)

theorem splitOn_row {line : CStr} (h : nl ∉ line) (rest : CStr) :
    (line ++ nl :: rest).splitOn nl = line :: rest.splitOn nl :=
  List.splitOn_append_cons_self_of_not_mem h rest

theorem rows_eq_nil {content : CStr} : rows content = [] ↔ nl ∉ content := by
  constructor
  · intro hr hnl
    obtain ⟨line, rest, rfl, hline⟩ := List.eq_append_cons_of_mem hnl
    rw [rows, splitOn_row hline] at hr
    exact List.splitOn_ne_nil nl rest hr
  · intro hnl
    rw [rows, List.splitOn_eq_singleton hnl]
    rfl

theorem lastRow_row {line : CStr} (h : nl ∉ line) (rest : CStr) : lastRow (line ++ nl :: rest) = lastRow rest := by
  obtain ⟨next, more, hs⟩ := List.exists_cons_of_ne_nil (List.splitOn_ne_nil nl rest)
  rw [lastRow, lastRow, splitOn_row h, hs]
  rfl

/-- What the loop returns, in terms of the lines: the headers of the block and the text behind it.
Without a text behind it the search for a colon in the last line decides. -/
theorem parseHeadersLoop_text (text : CStr) {fuel : ℕ} (hf : text.length < fuel) (pm : ParsedMessage) :
    parseHeadersLoop past fuel pm text =
      if (headerBlock (text.splitOn nl)).2 = none ∧ colon ∉ lastRow text ++ 0 :: past then none
      else some (putHeaders pm (headerBlock (text.splitOn nl)).1, (headerBlock (text.splitOn nl)).2) := by
  induction text using rows_induction generalizing fuel pm with
  | last text hnl =>
    obtain ⟨fuel, rfl⟩ : ∃ n, fuel = n + 1 := ⟨fuel - 1, by omega⟩
    rw [parseHeadersLoop, parseHeaderLine_last past pm hnl, lastRow, List.splitOn_eq_singleton hnl]
    by_cases hcol : colon ∈ text ++ 0 :: past
    · simp [hcol, headerBlock]
    · simp [hcol, headerBlock]
  | row line rest hline ih =>
    obtain ⟨fuel, rfl⟩ : ∃ n, fuel = n + 1 := ⟨fuel - 1, by omega⟩
    have hrest : rest.length < fuel := by
      rw [List.length_append, List.length_cons] at hf
      omega
    rw [parseHeadersLoop, parseHeaderLine_row past pm hline, splitOn_row hline, headerBlock_line, lastRow_row hline]
    cases headerOf line with
    | none => simp [putHeaders]
    | some p => exact ih hrest (putHeader pm p.1 p.2)

def emptyMessage (m : MessageWithTimestamp) : ParsedMessage :=
  ⟨parseCommand m.content, .nil, none, none, none, none, m.ts⟩

/-- The parsed message in terms of the lines of the text. -/
theorem parseMessage_text {m : MessageWithTimestamp} (hk : parseCommand m.content ≠ .unknown) :
    parseMessage past m =
      if nl ∈ m.content ∧ frameBody m.content = none ∧ colon ∉ lastRow m.content ++ 0 :: past then none
      else some { putHeaders (emptyMessage m) (frameHeaders m.content) with messageBody := frameBody m.content } := by
  simp only [parseMessage, if_neg hk]
  by_cases hnl : nl ∈ m.content
  · obtain ⟨line, rest, hc, hline⟩ := List.eq_append_cons_of_mem hnl
    have hrows : rows m.content = rest.splitOn nl := by rw [rows, hc, splitOn_row hline, List.tail_cons]
    rw [frameBody, frameHeaders, hrows, hc, nextRow_row hline, lastRow_row hline, ← hc]
    simp only [parseHeaders, parseHeadersLoop_text past rest (Nat.lt_succ_self _), hnl, true_and]
    split_ifs
    · rfl
    · rfl
  · rw [nextRow_last hnl, frameBody, frameHeaders, rows_eq_nil.2 hnl]
    simp [hnl, headerBlock, putHeaders, emptyMessage]

theorem parseMessage_unknown {m : MessageWithTimestamp} (hk : parseCommand m.content = .unknown) :
    parseMessage past m = some (emptyMessage m) := by
  simp [parseMessage, hk, emptyMessage]

theorem parseMessage_eq_some {past : List UInt8} {m : MessageWithTimestamp} {pm : ParsedMessage}
    (hk : parseCommand m.content ≠ .unknown) (h : parseMessage past m = some pm) :
    pm = { putHeaders (emptyMessage m) (frameHeaders m.content) with messageBody := frameBody m.content } := by
  rw [parseMessage_text past hk] at h
  split_ifs at h
  exact (Option.some_inj.1 h).symm

theorem putHeaders_headers (pairs : List (CStr × CStr)) (pm : ParsedMessage) :
    (putHeaders pm pairs).headers = putAll pm.headers pairs := by
  induction pairs generalizing pm with
  | nil => rfl
  | cons p pairs ih =>
    rw [putHeaders, List.foldl_cons, ← putHeaders, ih, putHeader_headers, putAll, putAll, List.foldl_cons]

theorem putHeaders_kept {β : Type} {field : ParsedMessage → β}
    (hput : ∀ pm key value, field (putHeader pm key value) = field pm) (pairs : List (CStr × CStr))
    (pm : ParsedMessage) : field (putHeaders pm pairs) = field pm := by
  induction pairs generalizing pm with
  | nil => rfl
  | cons p pairs ih => rw [putHeaders, List.foldl_cons, ← putHeaders, ih, hput]

theorem putHeaders_command (pairs : List (CStr × CStr)) (pm : ParsedMessage) :
    (putHeaders pm pairs).command = pm.command :=
  putHeaders_kept putHeader_command pairs pm

theorem putHeaders_messageBody (pairs : List (CStr × CStr)) (pm : ParsedMessage) :
    (putHeaders pm pairs).messageBody = pm.messageBody := by
  refine putHeaders_kept (fun pm key value => ?_) pairs pm
  unfold putHeader
  dsimp only
  split_ifs <;> rfl

theorem aaValue_putHeaders (m : MessageWithTimestamp) (pairs : List (CStr × CStr)) (key : CStr) :
    aaValue key (putHeaders (emptyMessage m) pairs).headers = pairs.reverse.lookup key := by
  rw [putHeaders_headers, emptyMessage, aaValue_putAll valid_nil, find_eq_lookup, aaValue, aaGet, Option.or_none]

end Message

inductive CommandWord
  | connect | stomp | disconnect | subscribe | unsubscribe | send | diag
  deriving DecidableEq, Repr

def CommandWord.text : CommandWord → CStr
  | .connect => lit "CONNECT"
  | .stomp => lit "STOMP"
  | .disconnect => lit "DISCONNECT"
  | .subscribe => lit "SUBSCRIBE"
  | .unsubscribe => lit "UNSUBSCRIBE"
  | .send => lit "SEND"
  | .diag => lit "DIAG"

def CommandWord.command : CommandWord → Command
  | .connect | .stomp => .connect
  | .disconnect => .disconnect
  | .subscribe => .subscribe
  | .unsubscribe => .unsubscribe
  | .send => .send
  | .diag => .diagnostic

inductive Eol
  | lf | crlf
  deriving DecidableEq, Repr

def Eol.mark : Eol → CStr
  | .lf => []
  | .crlf => [cr]

def Eol.text (eol : Eol) : CStr := eol.mark ++ [nl]

structure HeaderField where
  key : CStr
  value : CStr
  eol : Eol
  keyText : KeyText key
  valueText : LineText value
  keyNul : 0 ∉ key
  valueNul : 0 ∉ value

def HeaderField.text (f : HeaderField) : CStr := f.key ++ colon :: f.value ++ f.eol.text

structure Frame where
  word : CommandWord
  eol : Eol
  fields : List HeaderField
  blank : Eol
  body : CStr
  bodyNul : 0 ∉ body

def Frame.block (f : Frame) : CStr := f.fields.flatMap HeaderField.text ++ f.blank.text ++ f.body

def Frame.text (f : Frame) : CStr := f.word.text ++ f.eol.text ++ f.block

def Frame.pairs (f : Frame) : List (CStr × CStr) := f.fields.map fun h => (h.key, h.value)

theorem beforeCr_mark {line : CStr} (h : cr ∉ line) (eol : Eol) : beforeCr (line ++ eol.mark) = line := by
  rw [beforeCr, List.takeWhile_append_of_pos fun b hb => bne_iff_ne.2 (ne_of_mem_of_not_mem hb h)]
  cases eol <;> simp [Eol.mark]

theorem not_mem_mark {line : CStr} (h : nl ∉ line) (eol : Eol) : nl ∉ line ++ eol.mark := by
  cases eol <;> simp [Eol.mark, h, nl, cr]

theorem eol_split (line : CStr) (eol : Eol) (rest : CStr) :
    line ++ eol.text ++ rest = (line ++ eol.mark) ++ nl :: rest := by
  simp [Eol.text]

theorem headerOf_pair {key value : CStr} (hk : KeyText key) (hv : LineText value) (eol : Eol) :
    headerOf (key ++ colon :: value ++ eol.mark) = some (key, value) := by
  have hcr : cr ∉ key ++ colon :: value := by
    have hne : cr ≠ colon := by decide
    simp [hk.1.2, hne, hv.2]
  rw [headerOf, beforeCr_mark hcr, strchr_append_cons hk.2]
  simp

theorem headerBlock_pair {key value : CStr} (hk : KeyText key) (hv : LineText value) (eol : Eol) (text : CStr) :
    headerBlock ((key ++ colon :: value ++ eol.text ++ text).splitOn nl) =
      ((key, value) :: (headerBlock (text.splitOn nl)).1, (headerBlock (text.splitOn nl)).2) := by
  have hline : nl ∉ key ++ colon :: value := by
    have hne : nl ≠ colon := by decide
    simp [hk.1.1, hne, hv.1]
  rw [eol_split, splitOn_row (not_mem_mark hline eol), headerBlock_line, headerOf_pair hk hv]

theorem headerBlock_blank (blank : Eol) (body : CStr) :
    headerBlock ((blank.text ++ body).splitOn nl) = ([], some body) := by
  have hblank : headerOf ([] ++ blank.mark) = none := by
    rw [headerOf, beforeCr_mark List.not_mem_nil]
    rfl
  rw [← List.nil_append blank.text, eol_split, splitOn_row (not_mem_mark List.not_mem_nil blank), headerBlock_line,
    hblank]

theorem headerBlock_fields (fields : List HeaderField) (blank : Eol) (body : CStr) :
    headerBlock ((fields.flatMap HeaderField.text ++ blank.text ++ body).splitOn nl) =
      (fields.map fun h => (h.key, h.value), some body) := by
  induction fields with
  | nil => exact headerBlock_blank blank body
  | cons f fields ih =>
    rw [List.flatMap_cons, HeaderField.text, List.append_assoc, List.append_assoc, headerBlock_pair f.keyText f.valueText,
      ← List.append_assoc, ih]
    rfl

theorem CommandWord.not_mem_text (w : CommandWord) : nl ∉ w.text := by
  cases w <;> decide

theorem CommandWord.parseCommand_text (w : CommandWord) (rest : CStr) : parseCommand (w.text ++ rest) = w.command := by
  cases w <;> rfl

theorem Frame.rows_text (f : Frame) : rows f.text = f.block.splitOn nl := by
  rw [rows, Frame.text, eol_split, splitOn_row (not_mem_mark f.word.not_mem_text f.eol), List.tail_cons]

theorem Frame.headerBlock_rows (f : Frame) : headerBlock (rows f.text) = (f.pairs, some f.body) := by
  rw [f.rows_text, Frame.block, headerBlock_fields, Frame.pairs]

theorem Frame.blockEnds (f : Frame) : BlockEnds f.text := by
  rw [blockEnds_iff, frameBody, f.headerBlock_rows]
  exact Option.some_ne_none _

/-- A well-formed frame parses to its command, its headers with the last of repeated keys, and its
body, whatever its line ends and whatever lies behind it in memory. -/
theorem wellFormed_frames_parsed (past : List UInt8) (fd : SessionStorage.Fd) (ts : ℤ) (f : Frame) :
    ∃ pm, parseMessage past ⟨fd, f.text, ts⟩ = some pm ∧ pm.command = f.word.command ∧
      pm.headers = putAll .nil f.pairs ∧ (∀ key, aaValue key pm.headers = f.pairs.reverse.lookup key) ∧
      pm.messageBody = some f.body := by
  have hcommand : parseCommand f.text = f.word.command := by
    rw [Frame.text, List.append_assoc, CommandWord.parseCommand_text]
  have hknown : parseCommand f.text ≠ .unknown := by
    rw [hcommand]
    cases f.word <;> decide
  have hheaders : frameHeaders f.text = f.pairs := congrArg Prod.fst f.headerBlock_rows
  have hbody : frameBody f.text = some f.body := congrArg Prod.snd f.headerBlock_rows
  have hparsed : parseMessage past ⟨fd, f.text, ts⟩ =
      some { putHeaders (emptyMessage ⟨fd, f.text, ts⟩) f.pairs with messageBody := some f.body } := by
    rw [parseMessage_text past hknown, hheaders, hbody]
    simp
  refine ⟨_, hparsed, ?_, ?_, ?_, ?_⟩
  · exact (putHeaders_command _ _).trans hcommand
  · exact putHeaders_headers _ _
  · exact fun key => aaValue_putHeaders _ _ key
  · rfl

end StompBroker.FrameText
