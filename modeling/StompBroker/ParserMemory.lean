import StompBroker.FrameText
import StompBroker.TracedMemory

/-! The parser on the memory of the message. Pointers are offsets into the block that starts with
the content, and every search, comparison and store is recorded. The record decides whether the
parser stays in its text; the result is the one of the parser on suffixes. -/
namespace StompBroker.ParserMemory
open CString (CStr lit nl cr colon)
open AssociativeArray Message FrameText TracedMemory
open StompParser (Command ParsedMessage putHeader)

abbrev Ptr := Option ℕ

section Code
variable (base : ℕ)

/-- The address of a pointer; the block starts at `base`. -/
def address : Ptr → ℕ
  | none => 0
  | some p => base + p

/-- The difference of two pointers as a `size_t`. -/
def ptrDiff (a b : Ptr) : ℕ := (address base a + 2 ^ 64 - address base b) % 2 ^ 64

def nextRow (text : Ptr) : Traced UInt8 Ptr :=
  if text = none then pure none
  else do
    let first ← load text
    if first = 0 then pure none
    else do
      let ln ← strchr 0 nl text
      if ln = none then pure none
      else do
        let byte ← load ln
        let ln := if byte = cr then ln.map (· + 1) else ln
        pure (ln.map (· + 1))

def lineEnd (text : Ptr) : Traced UInt8 Ptr := do
  let ln ← strchr 0 nl text
  let cr ← strchr 0 cr text
  pure (match ln, cr with
    | none, c => c
    | some n, none => some n
    | some n, some c => if n > c then some c else some n)

/-- A header line is cut into two strings, stored, and put together again; a carriage return at
its end is put back as a line feed. `aa_put`, the comparisons and the copies read the two strings. -/
def storeHeader (pm : ParsedMessage) (str separator le : Ptr) : Traced UInt8 ParsedMessage := do
  store le 0
  store separator 0
  let key ← cells 0 str
  let value ← cells 0 (separator.map (· + 1))
  store separator colon
  store le nl
  pure (putHeader pm key value)

/-- What a pass does once it has its three pointers; the flag says that the loop condition is tested
next, else the pass returns. -/
def takeLine (pm : ParsedMessage) (str le nr separator : Ptr) : Traced UInt8 (Bool × ParsedMessage × Ptr) :=
  if separator = none ∧ nr ≠ none then pure (false, pm, nr)
  else if address base le > address base separator then do
    let pm ← storeHeader pm str separator le
    pure (true, pm, nr)
  else pure (false, pm, nr)

/-- One pass through the loop body of `parse_headers`. -/
def headerPass (pm : ParsedMessage) (str : Ptr) : Traced UInt8 (Bool × ParsedMessage × Ptr) := do
  let le ← lineEnd str
  let nr ← nextRow str
  let separator ← memchr colon (ptrDiff base nr str) str
  takeLine base pm str le nr separator

/-- Each pass leaves a shorter text, so the length of the text bounds the loop. -/
def parseHeaders : ℕ → ParsedMessage → Ptr → Traced UInt8 (ParsedMessage × Ptr)
  | 0, _, _ => fault .null
  | fuel + 1, pm, str => do
      let pass ← headerPass base pm str
      if pass.1 = true ∧ pass.2.2 ≠ none then parseHeaders fuel pass.2.1 pass.2.2
      else pure (pass.2.1, pass.2.2)

/-- `FRM_IS` on the first bytes of the content, in the order of the source. -/
def parseCommand (content : Ptr) : Traced UInt8 Command := do
  if ← memcmp (lit "CONNECT") content then pure .connect
  else if ← memcmp (lit "STOMP") content then pure .connect
  else if ← memcmp (lit "DISCONNECT") content then pure .disconnect
  else if ← memcmp (lit "SUBSCRIBE") content then pure .subscribe
  else if ← memcmp (lit "UNSUBSCRIBE") content then pure .unsubscribe
  else if ← memcmp (lit "SEND") content then pure .send
  else if ← memcmp (lit "DIAG") content then pure .diagnostic
  else pure .unknown

def parseBody (pm : ParsedMessage) (nextLine : Ptr) : Traced UInt8 ParsedMessage :=
  if nextLine = none then pure pm
  else do
    let body ← cells 0 nextLine
    pure { pm with messageBody := some body }

def parseMessage (fuel : ℕ) (ts : ℤ) : Traced UInt8 ParsedMessage := do
  let command ← parseCommand (some 0)
  let pm : ParsedMessage := ⟨command, .nil, none, none, none, none, ts⟩
  if command = .unknown then pure pm
  else do
    let nextLine ← nextRow (some 0)
    if nextLine = none then pure pm
    else do
      let parsed ← parseHeaders base fuel pm nextLine
      parseBody parsed.1 parsed.2

end Code

/-- A message content in memory: no NUL before its terminator, and a block inside the address space
that does not start at the null address. `past` are the mapped bytes behind the terminator. -/
structure Placed where
  base : ℕ
  content : CStr
  past : List UInt8
  noNul : 0 ∉ content
  nonNull : 0 < base
  fits : base + content.length + 1 + past.length < 2 ^ 64

def Placed.bytes (t : Placed) : List UInt8 := t.content ++ 0 :: t.past

/-- An access between the start of a text of the given length and its terminator. A search with a
given length may not ask for more than the text. -/
def Inside (length : ℕ) : Access → Prop
  | .read first count => first + count ≤ length + 1
  | .request first len => first + len ≤ length
  | .write pos => pos ≤ length
  | .null => False

section Lines
variable {base n p : ℕ} {m : List UInt8} {text past : List UInt8}

theorem inside_read (hn : p + text.length ≤ n) : ∀ count ≤ text.length + 1, Inside n (.read p count) := by
  intro count hc
  rw [Inside]
  omega

theorem lineEnd_runs (h : TextAt 0 m p text past) (hn : p + text.length ≤ n) :
    Runs (Inside n) (lineEnd (some p)) m ((StompParser.lineEnd text).map (p + ·)) m := by
  refine (strchr_runs h (by decide) (inside_read hn)).bind ?_
  refine (strchr_runs h (by decide) (inside_read hn)).bind ?_
  have hvalue : (match (CString.strchr text nl).map (p + ·), (CString.strchr text cr).map (p + ·) with
      | none, c => c
      | some n, none => some n
      | some n, some c => if n > c then some c else some n) = (StompParser.lineEnd text).map (p + ·) := by
    rw [StompParser.lineEnd]
    cases CString.strchr text nl with
    | none => rfl
    | some i =>
      cases CString.strchr text cr with
      | none => rfl
      | some j =>
        simp only [Option.map_some, gt_iff_lt, Nat.add_lt_add_iff_left]
        split_ifs <;> rfl
  rw [← hvalue]
  exact Runs.pure _ m

theorem nextRow_runs (h : TextAt 0 m p text past) (hn : p + text.length ≤ n) :
    Runs (Inside n) (nextRow (some p)) m ((CString.strchr text nl).map (p + · + 1)) m := by
  have hget : ∀ i, m[p + i]? = (text ++ 0 :: past)[i]? := fun i => by rw [← h.1, List.getElem?_drop]
  have hnone : (some p : Ptr) ≠ none := by simp
  rw [nextRow, if_neg hnone]
  cases htext : text with
  | nil =>
    have hb : m[p]? = some 0 := by simpa [htext] using hget 0
    refine (load_runs hb (inside_read hn 1 (by omega))).bind ?_
    rw [if_pos rfl]
    exact Runs.pure none m
  | cons b more =>
    have hb : m[p]? = some b := by simpa [htext] using hget 0
    have hb0 : b ≠ 0 := fun he => h.2 (by simp [htext, he])
    refine (load_runs hb (inside_read hn 1 (by omega))).bind ?_
    rw [if_neg hb0]
    rw [← htext]
    have hrun : Runs (Inside n) (strchr 0 nl (some p)) m ((CString.strchr text nl).map (p + ·)) m :=
      strchr_runs h (by decide) (inside_read hn)
    cases hs : CString.strchr text nl with
    | none =>
      rw [hs] at hrun
      refine hrun.bind ?_
      rw [Option.map_none, if_pos rfl]
      exact Runs.pure none m
    | some i =>
      rw [hs] at hrun
      obtain ⟨hi, hnl, -⟩ := List.findIdx?_eq_some_iff_getElem.1 hs
      have hload : m[p + i]? = some nl := by
        rw [hget, List.getElem?_append_left hi, List.getElem?_eq_getElem hi, beq_iff_eq.1 hnl]
      refine hrun.bind ?_
      rw [if_neg (by simp)]
      refine (load_runs hload (by rw [Inside]; omega)).bind ?_
      have hcr : nl ≠ cr := by decide
      rw [if_neg hcr]
      exact Runs.pure _ m

theorem storeHeader_runs (pm : ParsedMessage) (h : TextAt 0 m p text past) (hn : p + text.length ≤ n) {sep le : ℕ}
    (hsep : sep < le) (hle : le < text.length) :
    ∃ m', Runs (Inside n) (storeHeader pm (some p) (some (p + sep)) (some (p + le))) m
        (putHeader pm (text.take sep) ((text.take le).drop (sep + 1))) m' ∧
      ∀ q, p + le < q → m'.drop q = m.drop q := by
  have hlength := h.length
  have hline := h.cut hle
  have hsep' : sep < (text.take le).length := by
    rw [List.length_take]
    omega
  have hkey := hline.cut hsep'
  have hvalue := hkey.behind fun h0 => hline.2 (List.mem_of_mem_drop h0)
  have htake : (text.take le).take sep = text.take sep := by rw [List.take_take, min_eq_left hsep.le]
  rw [htake] at hkey hvalue
  have hlen : (text.take sep).length = sep := by
    rw [List.length_take]
    omega
  rw [hlen] at hvalue
  refine ⟨(((m.set (p + le) 0).set (p + sep) 0).set (p + sep) colon).set (p + le) nl, ?_, ?_⟩
  · refine (store_runs 0 (by omega) (by rw [Inside]; omega)).bind ?_
    refine (store_runs 0 (by simp; omega) (by rw [Inside]; omega)).bind ?_
    refine (cells_runs hkey (by rw [Inside]; omega)).bind ?_
    refine (cells_runs hvalue (by rw [Inside, List.length_drop, List.length_take]; omega)).bind ?_
    refine (store_runs colon (by simp; omega) (by rw [Inside]; omega)).bind ?_
    refine (store_runs nl (by simp; omega) (by rw [Inside]; omega)).bind ?_
    exact Runs.pure _ _
  · intro q hq
    rw [List.drop_set_of_lt hq, List.drop_set_of_lt (by omega), List.drop_set_of_lt (by omega), List.drop_set_of_lt hq]

theorem textAt_row {line rest : CStr} (h : TextAt 0 m p (line ++ nl :: rest) past) :
    TextAt 0 m (p + line.length + 1) rest past := by
  have hd := h.drop (by simp : line.length + 1 ≤ (line ++ nl :: rest).length)
  simpa [← List.drop_drop, Nat.add_assoc] using hd

theorem takeLine_runs (pm : ParsedMessage) (h : TextAt 0 m p text past) (hn : p + text.length ≤ n) {sep le : ℕ}
    (hle : le < text.length) (nr : Ptr) :
    ∃ m', Runs (Inside n) (takeLine base pm (some p) (some (p + le)) nr (some (p + sep))) m
        ((if sep < le then some (text.take sep, (text.take le).drop (sep + 1)) else none).isSome,
          putHeaders pm (if sep < le then some (text.take sep, (text.take le).drop (sep + 1)) else none).toList, nr) m' ∧
      ∀ q, p + le < q → m'.drop q = m.drop q := by
  rw [takeLine, if_neg (by simp)]
  by_cases hlt : sep < le
  · obtain ⟨m', hstore, hframe⟩ := storeHeader_runs pm h hn hlt hle
    have haddr : address base (some (p + le)) > address base (some (p + sep)) := by
      simp only [address]
      omega
    rw [if_pos haddr, if_pos hlt]
    exact ⟨m', hstore.bind (Runs.pure _ m'), hframe⟩
  · have haddr : ¬ address base (some (p + le)) > address base (some (p + sep)) := by
      simp only [address]
      omega
    rw [if_neg haddr, if_neg hlt]
    exact ⟨m, Runs.pure _ m, fun _ _ => rfl⟩

theorem ptrDiff_some {q : ℕ} (hpq : p ≤ q) (hq : base + q < 2 ^ 64) : ptrDiff base (some q) (some p) = q - p := by
  simp only [ptrDiff, address]
  omega

theorem ptrDiff_none (hb : 0 < base) (hp : base + p < 2 ^ 64) : ptrDiff base none (some p) = 2 ^ 64 - (base + p) := by
  simp only [ptrDiff, address]
  omega

theorem headerPass_row (pm : ParsedMessage) {line rest : CStr} (hline : nl ∉ line)
    (h : TextAt 0 m p (line ++ nl :: rest) past) (hn : p + (line ++ nl :: rest).length ≤ n) (hb : base + n < 2 ^ 64) :
    ∃ m', Runs (Inside n) (headerPass base pm (some p)) m
        ((headerOf line).isSome, putHeaders pm (headerOf line).toList, some (p + line.length + 1)) m' ∧
      TextAt 0 m' (p + line.length + 1) rest past := by
  have hlen : p + line.length + 1 + rest.length ≤ n := by simpa [Nat.add_assoc, Nat.add_comm 1] using hn
  have hrest := textAt_row h
  have hle := lineEnd_runs h hn
  rw [lineEnd_row hline rest, Option.map_some] at hle
  have hnr := nextRow_runs h hn
  rw [CString.strchr_append_cons hline rest, Option.map_some] at hnr
  have htake : (m.drop p).take (line.length + 1) = line ++ [nl] := by
    have hsplit : line ++ nl :: rest ++ 0 :: past = (line ++ [nl]) ++ (rest ++ 0 :: past) := by simp
    rw [h.1, hsplit]
    exact List.take_left' (by simp)
  have hsep : Runs (Inside n) (memchr colon (ptrDiff base (some (p + line.length + 1)) (some p)) (some p)) m
      ((CString.strchr line colon).map (p + ·)) m := by
    have hdiff : p + line.length + 1 - p = line.length + 1 := by omega
    have hblock : p + (line.length + 1) ≤ m.length := by
      rw [hrest.length]
      omega
    have hrun := @memchr_runs UInt8 (Inside n) colon m p _ (line.length + 1) hblock
      (by rw [Inside]; omega) (by intro count hc; rw [Inside]; omega)
    rw [htake, List.findIdx?_append] at hrun
    rw [ptrDiff_some (by omega) (by omega), hdiff]
    simpa [CString.strchr, nl, colon] using hrun
  cases hc : CString.strchr line colon with
  | none =>
    rw [hc, Option.map_none] at hsep
    have hnone : headerOf line = none := by simp [headerOf_eq, hc]
    refine ⟨m, hle.bind (hnr.bind (hsep.bind ?_)), hrest⟩
    rw [takeLine, if_pos (by simp), hnone]
    exact Runs.pure _ m
  | some sep =>
    rw [hc, Option.map_some] at hsep
    have hcr := beforeCr_length_le line
    obtain ⟨m', htake, hframe⟩ := @takeLine_runs base n p m _ past pm h hn sep (beforeCr line).length
      (by simp; omega) (some (p + line.length + 1))
    rw [← headerOf_found (List.prefix_append line (nl :: rest)) (by rw [hc])] at htake
    refine ⟨m', hle.bind (hnr.bind (hsep.bind htake)), ?_⟩
    exact ⟨(hframe _ (by omega)).trans hrest.1, hrest.2⟩

/-- A pass over the last line, which has no line feed: the search for a colon asks for all of the
address space, and finds one in the text or behind it, or fails. -/
theorem headerPass_last (pm : ParsedMessage) (hnl : nl ∉ text) (h : TextAt 0 m p text past)
    (hn : p + text.length ≤ n) (hb : 0 < base) (hbp : base + n + 1 + past.length < 2 ^ 64) :
    ¬ Stays (Inside n) (headerPass base pm (some p)) m ∧
      (result (headerPass base pm (some p)) m).map Prod.snd =
        if colon ∈ text ++ 0 :: past then
          some (putHeaders pm (if cr ∈ text then (headerOf text).toList else []), none)
        else none := by
  have hlength := h.length
  have hle := lineEnd_runs h hn
  have hend : StompParser.lineEnd text = CString.strchr text cr := by
    rw [StompParser.lineEnd, CString.strchr_eq_none.2 hnl]
  rw [hend] at hle
  have hnr := nextRow_runs h hn
  rw [CString.strchr_eq_none.2 hnl, Option.map_none] at hnr
  have hdiff : ptrDiff base none (some p) = 2 ^ 64 - (base + p) := ptrDiff_none hb (by omega)
  constructor
  · refine hle.not_stays_bind (hnr.not_stays_bind (not_stays_bind (memchr_not_stays ?_)))
    rw [hdiff, Inside]
    omega
  rw [headerPass, hle.bind_result, hnr.bind_result, hdiff]
  by_cases hcol : colon ∈ text ++ 0 :: past
  swap
  · have hnone : (m.drop p).findIdx? (· == colon) = none := by
      rw [h.1]
      exact CString.strchr_eq_none.2 hcol
    rw [bind_result_none (memchr_beyond_none (by omega) (by omega) hnone), if_neg hcol]
    rfl
  obtain ⟨sep, hsep⟩ := Option.ne_none_iff_exists'.1 fun hno => CString.strchr_eq_none.1 hno hcol
  have hidx : (m.drop p).findIdx? (· == colon) = some sep := by
    rw [h.1]
    exact hsep
  rw [(memchr_beyond (by omega) hidx).bind_result, if_pos hcol]
  by_cases hcr : cr ∈ text
  swap
  · rw [CString.strchr_eq_none.2 hcr, if_neg hcr]
    rfl
  have hhead : (CString.strchr text colon).filter (· < (beforeCr text).length) =
      (some sep).filter (· < (beforeCr text).length) := by
    rw [← filter_strchr_append (beforeCr_length_le text) (0 :: past), hsep]
  have hlen : (beforeCr text).length < text.length := (CString.not_mem_take_of_strchr (strchr_cr hcr)).1
  obtain ⟨m', htake, -⟩ := @takeLine_runs base n p m _ past pm h hn sep (beforeCr text).length hlen none
  rw [← headerOf_found List.prefix_rfl hhead] at htake
  rw [strchr_cr hcr, Option.map_some, if_pos hcr, htake.result_eq]
  rfl

theorem parseHeaders_closed (hb : base + n < 2 ^ 64) (text : CStr) {body : CStr}
    (hblock : (headerBlock (text.splitOn nl)).2 = some body) {fuel : ℕ} (hf : text.length < fuel) {m : List UInt8}
    {p : ℕ} (h : TextAt 0 m p text past) (hn : p + text.length ≤ n) (pm : ParsedMessage) :
    ∃ q m', Runs (Inside n) (parseHeaders base fuel pm (some p)) m
        (putHeaders pm (headerBlock (text.splitOn nl)).1, some q) m' ∧
      TextAt 0 m' q body past ∧ q + body.length ≤ n := by
  obtain ⟨fuel, rfl⟩ : ∃ k, fuel = k + 1 := ⟨fuel - 1, by omega⟩
  induction text using rows_induction generalizing fuel m p pm with
  | last text hnl => simp [List.splitOn_eq_singleton hnl, headerBlock] at hblock
  | row line rest hline ih =>
    obtain ⟨m₁, hpass, hrest⟩ := headerPass_row pm hline h hn hb
    have hlen : p + line.length + 1 + rest.length ≤ n := by simpa [Nat.add_assoc, Nat.add_comm 1] using hn
    have hshort : rest.length < fuel := by
      rw [List.length_append, List.length_cons] at hf
      omega
    rw [splitOn_row hline, headerBlock_line] at hblock ⊢
    cases hh : headerOf line with
    | none =>
      rw [hh] at hblock hpass
      obtain rfl := Option.some_inj.1 hblock
      refine ⟨p + line.length + 1, m₁, hpass.bind ?_, hrest, hlen⟩
      rw [if_neg (by simp)]
      exact Runs.pure _ m₁
    | some q =>
      rw [hh] at hblock hpass
      obtain ⟨fuel, rfl⟩ : ∃ k, fuel = k + 1 := ⟨fuel - 1, by omega⟩
      obtain ⟨q', m', hrun, hbody⟩ := ih hblock hrest hlen (putHeader pm q.1 q.2) fuel hshort
      refine ⟨q', m', hpass.bind ?_, hbody⟩
      rw [if_pos (by simp)]
      exact hrun

/-- The loop on a text without such a line: it reaches the last line and leaves the text there. -/
theorem parseHeaders_open (hb : 0 < base) (hbp : base + n + 1 + past.length < 2 ^ 64) (text : CStr)
    (hblock : (headerBlock (text.splitOn nl)).2 = none) {fuel : ℕ} (hf : text.length < fuel) {m : List UInt8}
    {p : ℕ} (h : TextAt 0 m p text past) (hn : p + text.length ≤ n) (pm : ParsedMessage) :
    ¬ Stays (Inside n) (parseHeaders base fuel pm (some p)) m ∧
      result (parseHeaders base fuel pm (some p)) m =
        if colon ∈ lastRow text ++ 0 :: past then some (putHeaders pm (headerBlock (text.splitOn nl)).1, none)
        else none := by
  obtain ⟨fuel, rfl⟩ : ∃ k, fuel = k + 1 := ⟨fuel - 1, by omega⟩
  induction text using rows_induction generalizing fuel m p pm with
  | last text hnl =>
    obtain ⟨hleave, hresult⟩ := headerPass_last pm hnl h hn hb hbp
    refine ⟨not_stays_bind hleave, ?_⟩
    rw [lastRow, List.splitOn_eq_singleton hnl, parseHeaders]
    change _ = if colon ∈ text ++ 0 :: past then _ else none
    by_cases hcol : colon ∈ text ++ 0 :: past
    · rw [if_pos hcol] at hresult ⊢
      obtain ⟨⟨again, pm', nr⟩, hr, he⟩ := Option.map_eq_some_iff.1 hresult
      obtain ⟨m', hrun⟩ := runs_of_result hr
      obtain ⟨rfl, rfl⟩ := Prod.mk.inj he
      rw [hrun.bind_result, if_neg (by simp), pure_result, headerBlock]
    · rw [if_neg hcol] at hresult ⊢
      exact bind_result_none (Option.map_eq_none_iff.1 hresult)
  | row line rest hline ih =>
    have hbn : base + n < 2 ^ 64 := by omega
    obtain ⟨m₁, hpass, hrest⟩ := headerPass_row pm hline h hn hbn
    have hlen : p + line.length + 1 + rest.length ≤ n := by simpa [Nat.add_assoc, Nat.add_comm 1] using hn
    have hshort : rest.length < fuel := by
      rw [List.length_append, List.length_cons] at hf
      omega
    rw [splitOn_row hline, headerBlock_line] at hblock ⊢
    rw [lastRow_row hline]
    cases hh : headerOf line with
    | none =>
      rw [hh] at hblock
      cases hblock
    | some q =>
      rw [hh] at hblock hpass
      obtain ⟨fuel, rfl⟩ : ∃ k, fuel = k + 1 := ⟨fuel - 1, by omega⟩
      obtain ⟨hleave, hresult⟩ := ih hblock hrest hlen (putHeader pm q.1 q.2) fuel hshort
      constructor
      · refine hpass.not_stays_bind ?_
        rw [if_pos (by simp)]
        exact hleave
      · rw [parseHeaders, hpass.bind_result, if_pos (by simp)]
        exact hresult

/-- The comparisons of `parse_command` end inside the text: it has ten bytes, or a word that comes
before the longer ones in their order. -/
def CommandFits (content : CStr) : Prop :=
  10 ≤ content.length ∨ (lit "CONNECT").isPrefixOf content = true ∨
    ((lit "STOMP").isPrefixOf content = true ∧ 6 ≤ content.length) ∨ (lit "SUBSCRIBE").isPrefixOf content = true

instance (content : CStr) : Decidable (CommandFits content) := inferInstanceAs (Decidable (_ ∨ _))

theorem parseCommand_runs (h : TextAt 0 m 0 text past) :
    Runs (fun _ => True) (parseCommand (some 0)) m (StompParser.parseCommand text) m := by
  -- one comparison and the two ways to go on
  have hchoose : ∀ {w : CStr} {x y : Traced UInt8 Command} {a b : Command}, 0 ∉ w →
      Runs (fun _ => True) x m a m → Runs (fun _ => True) y m b m →
      Runs (fun _ => True) (do if ← memcmp w (some 0) then x else y) m
        (if w.isPrefixOf text then a else b) m := by
    intro w x y a b hw hx hy
    refine (memcmp_runs w h hw trivial).bind ?_
    cases w.isPrefixOf text
    · exact hy
    · exact hx
  have hconnect : StompParser.parseCommand text =
      if (lit "CONNECT").isPrefixOf text then .connect
      else if (lit "STOMP").isPrefixOf text then .connect
      else if (lit "DISCONNECT").isPrefixOf text then .disconnect
      else if (lit "SUBSCRIBE").isPrefixOf text then .subscribe
      else if (lit "UNSUBSCRIBE").isPrefixOf text then .unsubscribe
      else if (lit "SEND").isPrefixOf text then .send
      else if (lit "DIAG").isPrefixOf text then .diagnostic
      else .unknown := by
    unfold StompParser.parseCommand
    cases (lit "CONNECT").isPrefixOf text <;> rfl
  rw [hconnect]
  refine hchoose (by decide) (Runs.pure _ m) ?_
  refine hchoose (by decide) (Runs.pure _ m) ?_
  refine hchoose (by decide) (Runs.pure _ m) ?_
  refine hchoose (by decide) (Runs.pure _ m) ?_
  refine hchoose (by decide) (Runs.pure _ m) ?_
  refine hchoose (by decide) (Runs.pure _ m) ?_
  exact hchoose (by decide) (Runs.pure _ m) (Runs.pure _ m)

theorem length_le_of_isPrefixOf (w text : CStr) (h : w.isPrefixOf text = true) : w.length ≤ text.length :=
  (List.isPrefixOf_iff_prefix.1 h).length_le

theorem parseCommand_stays_iff (h : TextAt 0 m 0 text past) :
    Stays (Inside text.length) (parseCommand (some 0)) m ↔ CommandFits text := by
  -- a comparison takes its cells, and the next one is reached when the word is not there
  have hpure : ∀ command : Command, Stays (Inside text.length) (pure command : Traced UInt8 Command) m :=
    fun command => (Runs.pure command m).stays
  have hnext : ∀ {w : CStr} {command : Command} {y : Traced UInt8 Command}, 0 ∉ w →
      (Stays (Inside text.length) (do if ← memcmp w (some 0) then pure command else y) m ↔
        w.length ≤ text.length + 1 ∧ (w.isPrefixOf text = false → Stays (Inside text.length) y m)) := by
    intro w command y hw
    rw [(memcmp_runs (I := fun _ => True) w h hw trivial).stays_bind_iff, memcmp_stays_iff, Inside, Nat.zero_add]
    cases w.isPrefixOf text <;> simp [hpure command]
  have hconnect := length_le_of_isPrefixOf (lit "CONNECT") text
  have hdisconnect := length_le_of_isPrefixOf (lit "DISCONNECT") text
  have hsubscribe := length_le_of_isPrefixOf (lit "SUBSCRIBE") text
  rw [parseCommand, hnext (by decide), hnext (by decide), hnext (by decide), hnext (by decide), hnext (by decide),
    hnext (by decide), hnext (by decide), CommandFits]
  have hlengths : (lit "CONNECT").length = 7 ∧ (lit "STOMP").length = 5 ∧ (lit "DISCONNECT").length = 10 ∧
      (lit "SUBSCRIBE").length = 9 ∧ (lit "UNSUBSCRIBE").length = 11 ∧ (lit "SEND").length = 4 ∧
      (lit "DIAG").length = 4 := by decide
  obtain ⟨h1, h2, h3, h4, h5, h6, h7⟩ := hlengths
  rw [h1] at hconnect
  rw [h3] at hdisconnect
  rw [h4] at hsubscribe
  rw [h1, h2, h3, h4, h5, h6, h7]
  grind

end Lines

theorem Placed.textAt (t : Placed) : TextAt 0 t.bytes 0 t.content t.past := ⟨rfl, t.noNul⟩

section Message
variable (t : Placed) (fd : SessionStorage.Fd) (ts : ℤ)

def Placed.message : MessageWithTimestamp := ⟨fd, t.content, ts⟩

def Placed.parse : Traced UInt8 ParsedMessage := parseMessage t.base (t.content.length + 1) ts

theorem secondRow_runs (hnl : nl ∈ t.content) :
    ∃ rest start, Runs (Inside t.content.length) (nextRow (some 0)) t.bytes (some start) t.bytes ∧
      TextAt 0 t.bytes start rest t.past ∧
      headerBlock (rest.splitOn nl) = (frameHeaders t.content, frameBody t.content) ∧
      lastRow rest = lastRow t.content ∧
      start + rest.length ≤ t.content.length ∧ rest.length < t.content.length + 1 := by
  have hnr := nextRow_runs t.textAt (by omega : 0 + t.content.length ≤ t.content.length)
  obtain ⟨line, rest, hc, hline⟩ := List.eq_append_cons_of_mem hnl
  have hs : CString.strchr t.content nl = some line.length := by rw [hc, CString.strchr_append_cons hline]
  rw [hs, Option.map_some] at hnr
  have hlen := congrArg List.length hc
  rw [List.length_append, List.length_cons] at hlen
  refine ⟨rest, 0 + line.length + 1, hnr, textAt_row (hc ▸ t.textAt), ?_, ?_, by omega, by omega⟩
  · rw [frameHeaders, frameBody, rows, hc, splitOn_row hline]
    rfl
  · rw [hc, lastRow_row hline]

/-- On a text of which the parser needs no last line it finds what the text says; behind the
comparisons of the command it stays in the text. -/
theorem parse_runs {I : Access → Prop} (hI : ∀ access, Inside t.content.length access → I access)
    (hcommand : Runs I (parseCommand (some 0)) t.bytes (StompParser.parseCommand t.content) t.bytes)
    (h : StompParser.parseCommand t.content = .unknown ∨ nl ∉ t.content ∨ BlockEnds t.content) :
    ∃ pm m', Runs I (t.parse ts) t.bytes pm m' ∧ StompParser.parseMessage t.past (t.message fd ts) = some pm := by
  by_cases hk : StompParser.parseCommand t.content = .unknown
  · refine ⟨_, t.bytes, hcommand.bind ?_, parseMessage_unknown t.past hk⟩
    rw [if_pos hk]
    exact Runs.pure _ _
  have hnr := nextRow_runs t.textAt (by omega : 0 + t.content.length ≤ t.content.length)
  by_cases hnl : nl ∈ t.content
  swap
  · rw [CString.strchr_eq_none.2 hnl, Option.map_none] at hnr
    refine ⟨emptyMessage (t.message fd ts), t.bytes, hcommand.bind ?_, ?_⟩
    · rw [if_neg hk]
      exact (hnr.mono hI).bind (Runs.pure _ _)
    · simp [StompParser.parseMessage, Placed.message, emptyMessage, hk, nextRow_last hnl]
  obtain ⟨body, hbody⟩ : ∃ body, frameBody t.content = some body := by
    have hends : BlockEnds t.content := (h.resolve_left hk).resolve_left (not_not.2 hnl)
    exact Option.ne_none_iff_exists'.1 (blockEnds_iff.1 hends)
  obtain ⟨rest, start, hsecond, hat, hblock, hlast, hn, hf⟩ := secondRow_runs t hnl
  have hbody' : (headerBlock (rest.splitOn nl)).2 = some body := by rw [hblock, hbody]
  have hbn : t.base + t.content.length < 2 ^ 64 := by
    have := t.fits
    omega
  obtain ⟨q, m', hrun, hq, hqn⟩ := parseHeaders_closed hbn rest hbody' hf hat hn (emptyMessage (t.message fd ts))
  rw [hblock] at hrun
  refine ⟨{ putHeaders (emptyMessage (t.message fd ts)) (frameHeaders t.content) with messageBody := some body }, m',
    hcommand.bind ?_, ?_⟩
  · rw [if_neg hk]
    refine (hsecond.mono hI).bind ?_
    rw [if_neg (by simp)]
    refine (hrun.mono hI).bind ?_
    rw [parseBody, if_neg (by simp)]
    refine (cells_runs hq (hI _ ?_)).bind (Runs.pure _ m')
    rw [Inside]
    omega
  · have hm : (t.message fd ts).content = t.content := rfl
    rw [parseMessage_text t.past (by exact hk), hm, hbody]
    simp

theorem parse_leaves (hk : StompParser.parseCommand t.content ≠ .unknown) (hnl : nl ∈ t.content)
    (hb : ¬ BlockEnds t.content) :
    ¬ Stays (Inside t.content.length) (t.parse ts) t.bytes ∧
      result (t.parse ts) t.bytes = StompParser.parseMessage t.past (t.message fd ts) := by
  have hcommand := parseCommand_runs t.textAt
  have hnone : frameBody t.content = none := not_not.1 fun hne => hb (blockEnds_iff.2 hne)
  obtain ⟨rest, start, hsecond, hat, hblock, hlast, hn, hf⟩ := secondRow_runs t hnl
  have hnone' : (headerBlock (rest.splitOn nl)).2 = none := by rw [hblock, hnone]
  obtain ⟨hleave, hresult⟩ := parseHeaders_open t.nonNull t.fits rest hnone' hf hat hn (emptyMessage (t.message fd ts))
  constructor
  · refine hcommand.not_stays_bind ?_
    rw [if_neg hk]
    refine hsecond.not_stays_bind ?_
    rw [if_neg (by simp)]
    exact not_stays_bind hleave
  · have hparse : result (t.parse ts) t.bytes = result
        (parseHeaders t.base (t.content.length + 1) (emptyMessage (t.message fd ts)) (some start) >>=
          fun parsed => parseBody parsed.1 parsed.2) t.bytes := by
      rw [Placed.parse, parseMessage, hcommand.bind_result, if_neg hk, hsecond.bind_result, if_neg (by simp)]
      rfl
    have hm : (t.message fd ts).content = t.content := rfl
    rw [hlast, hblock] at hresult
    rw [hparse, parseMessage_text t.past (by exact hk), hm, hnone]
    by_cases hcol : colon ∈ lastRow t.content ++ 0 :: t.past
    · rw [if_pos hcol] at hresult
      obtain ⟨m', hrun⟩ := runs_of_result hresult
      have hbody := putHeaders_messageBody (frameHeaders t.content) (emptyMessage (t.message fd ts))
      rw [hrun.bind_result, parseBody, if_pos rfl, pure_result, if_neg fun hno => hno.2.2 hcol]
      exact congrArg some (congrArg (fun body => { putHeaders (emptyMessage (t.message fd ts))
        (frameHeaders t.content) with messageBody := body }) hbody)
    · rw [if_neg hcol] at hresult
      rw [bind_result_none hresult, if_pos ⟨hnl, rfl, hcol⟩]

/-- The parser on memory computes what the parser on suffixes computes. -/
theorem parse_refines : result (t.parse ts) t.bytes = StompParser.parseMessage t.past (t.message fd ts) := by
  by_cases h : StompParser.parseCommand t.content = .unknown ∨ nl ∉ t.content ∨ BlockEnds t.content
  · obtain ⟨pm, m', hrun, hpm⟩ := parse_runs t fd ts (fun _ _ => trivial) (parseCommand_runs t.textAt) h
    rw [hrun.result_eq, hpm]
  · simp only [not_or, not_not] at h
    exact (parse_leaves t fd ts h.1 h.2.1 h.2.2).2

/-- The parser stays between the start of its text and the terminator exactly when the comparisons of
the command do, and it does not reach a last line: the command is unknown, there is one line only, or
a line ends the headers. -/
theorem parser_stays_in_text_iff : Stays (Inside t.content.length) (t.parse ts) t.bytes ↔
    CommandFits t.content ∧
      (StompParser.parseCommand t.content = .unknown ∨ nl ∉ t.content ∨ BlockEnds t.content) := by
  have hcommand := parseCommand_runs t.textAt
  constructor
  · intro hs
    constructor
    · by_contra hfits
      exact not_stays_bind (fun hc => hfits ((parseCommand_stays_iff t.textAt).1 hc)) hs
    · by_contra h
      simp only [not_or, not_not] at h
      exact (parse_leaves t 0 ts h.1 h.2.1 h.2.2).1 hs
  · rintro ⟨hfits, h⟩
    have hstays := hcommand.of_stays ((parseCommand_stays_iff t.textAt).2 hfits)
    obtain ⟨pm, m', hrun, -⟩ := parse_runs t 0 ts (fun _ h => h) hstays h
    exact hrun.stays

/-- A well-formed frame of ten bytes never makes the parser leave its text. -/
theorem wellFormed_frame_stays {f : Frame} (h : t.content = f.text) (hlong : 10 ≤ t.content.length) :
    Stays (Inside t.content.length) (t.parse ts) t.bytes := by
  have hends : BlockEnds t.content := h ▸ f.blockEnds
  have hstays := (parseCommand_runs t.textAt).of_stays ((parseCommand_stays_iff t.textAt).2 (.inl hlong))
  obtain ⟨pm, m', hrun, -⟩ := parse_runs t 0 ts (fun _ h => h) hstays (.inr (.inr hends))
  exact hrun.stays

/-- A frame that ends with its first line: the last line is empty, and the search for a colon in it
runs off the block. -/
theorem truncated_connect_leaves : ∃ t : Placed, t.content = lit "CONNECT\n" ∧
    ¬ Stays (Inside t.content.length) (t.parse 0) t.bytes ∧ result (t.parse 0) t.bytes = none := by
  refine ⟨⟨4096, lit "CONNECT\n", [], by decide, by decide, by decide⟩, rfl, ?_⟩
  have hleave := parse_leaves ⟨4096, lit "CONNECT\n", [], by decide, by decide, by decide⟩ 0 0
    (by decide) (by decide) (by decide)
  exact ⟨hleave.1, hleave.2.trans (by decide)⟩

end Message

end StompBroker.ParserMemory
