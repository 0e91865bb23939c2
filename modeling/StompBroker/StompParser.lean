import StompBroker.Message

/-! The STOMP frame parser. Pointers into the message text are suffixes of it and a null
pointer is `none`. The parser searches for a colon past the end of a text that has no
further line; `past` stands for the readable bytes behind the terminating NUL, and a
search that leaves them is a fault. -/
namespace StompBroker.StompParser
open CString AssociativeArray Message

/-- The FRM ids; `unknown` is the result -1. -/
inductive Command
  | connect | disconnect | subscribe | unsubscribe | send | diagnostic | unknown
  deriving DecidableEq, Repr

structure ParsedMessage where
  command : Command
  headers : AaItem
  receiptId : Option CStr
  messageBody : Option CStr
  topic : Option CStr
  id : Option CStr
  ts : ℤ
  deriving DecidableEq, Repr

def parseCommand (content : CStr) : Command :=
  if (lit "CONNECT").isPrefixOf content || (lit "STOMP").isPrefixOf content then .connect
  else if (lit "DISCONNECT").isPrefixOf content then .disconnect
  else if (lit "SUBSCRIBE").isPrefixOf content then .subscribe
  else if (lit "UNSUBSCRIBE").isPrefixOf content then .unsubscribe
  else if (lit "SEND").isPrefixOf content then .send
  else if (lit "DIAG").isPrefixOf content then .diagnostic
  else .unknown

def nextRow (text : CStr) : Option CStr :=
  if text = [] then none
  else match strchr text nl with
    | none => none
    | some ln =>
        let ln := if text[ln]? = some cr then ln + 1 else ln
        some (text.drop (ln + 1))

def lineEnd (text : CStr) : Option ℕ :=
  match strchr text nl, strchr text cr with
  | none, c => c
  | some n, none => some n
  | some n, some c => if n > c then some c else some n

/-- `memchr(str, ':', nr_ptr - str)`; with a null `nr_ptr` the length wraps around and the
search runs on behind the text. The outer `none` is a read outside mapped memory. -/
def memchrColon (past : List UInt8) (str : CStr) : Option CStr → Option (Option ℕ)
  | some row => some (strchr (str.take (str.length - row.length)) colon)
  | none => (strchr (str ++ 0 :: past) colon).map some

/-- Store one header; a special key is recognised by its first bytes. -/
def putHeader (pm : ParsedMessage) (key value : CStr) : ParsedMessage :=
  let pm := { pm with headers := aaPut pm.headers key value }
  if strncmpEq key (lit "receipt") 7 then { pm with receiptId := some value }
  else if strncmpEq key (lit "id") 2 then { pm with id := some value }
  else if strncmpEq key (lit "destination") 11 then { pm with topic := some value }
  else pm

/-- Outcome of one pass through the loop body of `parse_headers`. -/
inductive HeaderLine
  | fault
  | stop (pm : ParsedMessage) (ret : Option CStr)
  | next (pm : ParsedMessage) (row : CStr)

def parseHeaderLine (past : List UInt8) (pm : ParsedMessage) (str : CStr) : HeaderLine :=
  let nr := nextRow str
  match memchrColon past str nr with
  | none => .fault
  | some none => match nr with
      | some row => .stop pm (some row)
      | none => .fault
  | some (some sep) => match lineEnd str with
      | none => .stop pm nr
      | some le =>
          if le > sep then
            let pm := putHeader pm (str.take sep) ((str.take le).drop (sep + 1))
            match nr with
            | some row => .next pm row
            | none => .stop pm none
          else .stop pm nr

/-- Each line is shorter than the text before it, so the text length bounds the loop. -/
def parseHeadersLoop (past : List UInt8) :
    ℕ → ParsedMessage → CStr → Option (ParsedMessage × Option CStr)
  | 0, _, _ => none
  | fuel + 1, pm, str =>
      match parseHeaderLine past pm str with
      | .fault => none
      | .stop pm ret => some (pm, ret)
      | .next pm row => parseHeadersLoop past fuel pm row

def parseHeaders (past : List UInt8) (pm : ParsedMessage) (str : CStr) :
    Option (ParsedMessage × Option CStr) :=
  parseHeadersLoop past (str.length + 1) pm str

/-- `none` when the parser reads outside mapped memory. -/
def parseMessage (past : List UInt8) (message : MessageWithTimestamp) : Option ParsedMessage :=
  let pm : ParsedMessage := ⟨parseCommand message.content, .nil, none, none, none, none, message.ts⟩
  if pm.command = .unknown then some pm
  else match nextRow message.content with
    | none => some pm
    | some row =>
        (parseHeaders past pm row).map fun p => { p.1 with messageBody := p.2 }

def LineText (text : CStr) : Prop := nl ∉ text ∧ cr ∉ text

/-- A text that can stand before the colon of a header line. -/
def KeyText (text : CStr) : Prop := LineText text ∧ colon ∉ text

instance (text : CStr) : Decidable (LineText text) := inferInstanceAs (Decidable (_ ∧ _))
instance (text : CStr) : Decidable (KeyText text) := inferInstanceAs (Decidable (_ ∧ _))

theorem lineEnd_spec {text : CStr} {le : ℕ} (h : lineEnd text = some le) :
    le < text.length ∧ LineText (text.take le) := by
  have shorter : ∀ {c : UInt8} {i : ℕ}, le ≤ i → strchr text c = some i → c ∉ text.take le :=
    fun hle hi hc => (not_mem_take_of_strchr hi).2 ((List.take_prefix_take_left hle).subset hc)
  have absent : ∀ {c : UInt8}, strchr text c = none → c ∉ text.take le :=
    fun hn hc => strchr_eq_none.1 hn ((List.take_prefix le text).subset hc)
  unfold lineEnd at h
  split at h
  · rename_i hn
    exact ⟨(not_mem_take_of_strchr h).1, absent hn, (not_mem_take_of_strchr h).2⟩
  · rename_i n hn hc
    obtain rfl := Option.some_inj.1 h
    exact ⟨(not_mem_take_of_strchr hn).1, (not_mem_take_of_strchr hn).2, absent hc⟩
  · rename_i n c hn hc
    split_ifs at h with hlt
    · obtain rfl := Option.some_inj.1 h
      exact ⟨(not_mem_take_of_strchr hc).1, shorter (by omega) hn, (not_mem_take_of_strchr hc).2⟩
    · obtain rfl := Option.some_inj.1 h
      exact ⟨(not_mem_take_of_strchr hn).1, (not_mem_take_of_strchr hn).2, shorter (by omega) hc⟩

theorem memchrColon_spec {past : List UInt8} {str : CStr} {row : Option CStr} {sep le : ℕ}
    (h : memchrColon past str row = some (some sep)) (hle : le < str.length) (hlt : sep < le) :
    colon ∉ str.take sep := by
  cases row with
  | some row =>
    obtain ⟨hs, hn⟩ := not_mem_take_of_strchr (Option.some_inj.1 h)
    rw [List.length_take] at hs
    rwa [List.take_take, min_eq_left (by omega)] at hn
  | none =>
    obtain ⟨sep', hs, he⟩ := Option.map_eq_some_iff.1 h
    obtain rfl := Option.some_inj.1 he
    have hn := (not_mem_take_of_strchr hs).2
    rwa [List.take_append_of_le_length (by omega)] at hn

theorem headerLine_text {past : List UInt8} {str : CStr} {row : Option CStr} {sep le : ℕ}
    (h : memchrColon past str row = some (some sep)) (hl : lineEnd str = some le) (hlt : le > sep) :
    KeyText (str.take sep) ∧ LineText ((str.take le).drop (sep + 1)) := by
  obtain ⟨hle, hn, hc⟩ := lineEnd_spec hl
  have hsub : str.take sep ⊆ str.take le := (List.take_prefix_take_left (by omega)).subset
  have hdrop : (str.take le).drop (sep + 1) ⊆ str.take le := (List.drop_suffix _ _).subset
  exact ⟨⟨⟨fun hm => hn (hsub hm), fun hm => hc (hsub hm)⟩, memchrColon_spec h hle hlt⟩,
    fun hm => hn (hdrop hm), fun hm => hc (hdrop hm)⟩

theorem parseHeaderLine_cases (past : List UInt8) (pm : ParsedMessage) (str : CStr) :
    parseHeaderLine past pm str = .fault ∨
    (∃ ret, parseHeaderLine past pm str = .stop pm ret) ∨
    ∃ key value, KeyText key ∧ LineText value ∧
      (parseHeaderLine past pm str = .stop (putHeader pm key value) none ∨
        ∃ row, nextRow str = some row ∧
          parseHeaderLine past pm str = .next (putHeader pm key value) row) := by
  unfold parseHeaderLine
  cases hm : memchrColon past str (nextRow str) with
  | none => simp [hm]
  | some sep =>
    cases sep with
    | none => cases hn : nextRow str <;> simp_all
    | some sep =>
      cases hl : lineEnd str with
      | none => simp [hm]
      | some le =>
        by_cases hc : le > sep
        · obtain ⟨hkey, hvalue⟩ := headerLine_text hm hl hc
          refine .inr (.inr ⟨str.take sep, (str.take le).drop (sep + 1), hkey, hvalue, ?_⟩)
          cases hn : nextRow str with
          | none => exact .inl (by simp [hn ▸ hm, hc])
          | some row => exact .inr ⟨row, rfl, by simp [hn ▸ hm, hc]⟩
        · simp [hm, hc]

/-- The loop is an iteration of `putHeader`: a property it keeps survives the loop. -/
theorem parseHeadersLoop_invariant {P : ParsedMessage → Prop}
    (hput : ∀ pm key value, KeyText key → LineText value → P pm → P (putHeader pm key value))
    {past : List UInt8} {fuel : ℕ} {pm pm' : ParsedMessage} {str : CStr} {ret : Option CStr}
    (h : parseHeadersLoop past fuel pm str = some (pm', ret)) (hp : P pm) : P pm' := by
  induction fuel generalizing pm str with
  | zero => simp [parseHeadersLoop] at h
  | succ fuel ih =>
    simp only [parseHeadersLoop] at h
    rcases parseHeaderLine_cases past pm str with
      hf | ⟨r, hs⟩ | ⟨key, value, hkey, hvalue, hs | ⟨row, -, hx⟩⟩
    · simp [hf] at h
    · simp only [hs, Option.some.injEq, Prod.mk.injEq] at h
      exact h.1 ▸ hp
    · simp only [hs, Option.some.injEq, Prod.mk.injEq] at h
      exact h.1 ▸ hput pm key value hkey hvalue hp
    · simp only [hx] at h
      exact ih h (hput pm key value hkey hvalue hp)

theorem putHeader_headers (pm : ParsedMessage) (key value : CStr) :
    (putHeader pm key value).headers = aaPut pm.headers key value := by
  unfold putHeader
  dsimp only
  split_ifs <;> rfl

theorem putHeader_command (pm : ParsedMessage) (key value : CStr) :
    (putHeader pm key value).command = pm.command := by
  unfold putHeader
  dsimp only
  split_ifs <;> rfl

/-- The special fields are copies of header values. -/
theorem putHeader_fields (pm : ParsedMessage) (key value : CStr) :
    ((putHeader pm key value).topic = pm.topic ∨ (putHeader pm key value).topic = some value) ∧
    ((putHeader pm key value).id = pm.id ∨ (putHeader pm key value).id = some value) := by
  unfold putHeader
  dsimp only
  split_ifs <;> simp

/-- The parsed message starts empty, receives headers, and last its body. -/
theorem parseMessage_invariant {P : ParsedMessage → Prop}
    (hput : ∀ pm key value, KeyText key → LineText value → P pm → P (putHeader pm key value))
    (hbody : ∀ pm body, P pm → P { pm with messageBody := body })
    {past : List UInt8} {m : MessageWithTimestamp} {pm : ParsedMessage}
    (h0 : P ⟨parseCommand m.content, .nil, none, none, none, none, m.ts⟩)
    (h : parseMessage past m = some pm) : P pm := by
  unfold parseMessage at h
  dsimp only at h
  split_ifs at h with hu
  · simp only [Option.some.injEq] at h
    exact h ▸ h0
  · split at h
    · simp only [Option.some.injEq] at h
      exact h ▸ h0
    · obtain ⟨⟨pm', ret⟩, hp, rfl⟩ := Option.map_eq_some_iff.mp h
      exact hbody pm' ret (parseHeadersLoop_invariant hput hp h0)

theorem parseMessage_command {past : List UInt8} {m : MessageWithTimestamp} {pm : ParsedMessage}
    (h : parseMessage past m = some pm) : pm.command = parseCommand m.content :=
  parseMessage_invariant (P := fun pm => pm.command = parseCommand m.content)
    (fun pm key value _ _ hc => (putHeader_command pm key value).trans hc) (fun _ _ hc => hc) rfl h

theorem parseMessage_headers_ne_nil {past : List UInt8} {m : MessageWithTimestamp}
    {pm : ParsedMessage} {t : CStr} (h : parseMessage past m = some pm) (ht : pm.topic = some t) :
    pm.headers ≠ .nil := by
  have key := parseMessage_invariant (P := fun pm => pm.topic = none ∨ pm.headers ≠ .nil)
    (fun pm key value _ _ _ => .inr (by rw [putHeader_headers]; exact aaPut_ne_nil _ _ _))
    (fun _ _ hp => hp) (.inl rfl) h
  rcases key with hn | hne
  · simp [hn] at ht
  · exact hne

end StompBroker.StompParser
