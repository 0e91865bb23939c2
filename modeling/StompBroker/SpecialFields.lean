import StompBroker.FrameText

/-! The fields of a parsed message that repeat a header. The map stores a header under its whole
name; the fields receipt, id and destination are chosen by the first bytes of the name, so a longer
name that starts with one of the three writes the field too. -/
namespace StompBroker.SpecialFields
open CString AssociativeArray Message StompParser HeaderMap FrameText

/-- The value of the last header whose name starts with the given one. -/
def lastWith (name : CStr) (pairs : List (CStr × CStr)) : Option CStr :=
  (pairs.reverse.find? fun p => name.isPrefixOf p.1).map Prod.snd

/-- The last header whose name starts with the given one has a longer name, and a value that is not
the last one under the exact name. -/
def Overridden (name : CStr) (pairs : List (CStr × CStr)) : Prop :=
  ∃ before key value after, pairs = before ++ (key, value) :: after ∧ name <+: key ∧ key ≠ name ∧
    (∀ p ∈ after, ¬ name <+: p.1) ∧ before.reverse.lookup name ≠ some value

/-- A field agrees with the header map on a frame with the given headers. -/
def Agrees (field : Option CStr) (name : CStr) (headers : AaItem) (pairs : List (CStr × CStr)) : Prop :=
  field = aaValue name headers ∧ (field = none ↔ name ∉ pairs.map Prod.fst)

structure FieldsAgree (content : CStr) (pm : ParsedMessage) : Prop where
  topic : Agrees pm.topic (lit "destination") pm.headers (frameHeaders content)
  id : Agrees pm.id (lit "id") pm.headers (frameHeaders content)
  receiptId : Agrees pm.receiptId (lit "receipt") pm.headers (frameHeaders content)

section Names
variable {name key value : CStr} {pairs : List (CStr × CStr)}

theorem strncmpEq_iff : strncmpEq key name name.length = true ↔ name <+: key := by
  rw [strncmpEq, beq_iff_eq, List.take_length, List.prefix_iff_eq_take]
  exact eq_comm

theorem not_prefix_of_head_ne {a b : UInt8} {s t : CStr} (hne : a ≠ b) (h : a :: s <+: key) : ¬ b :: t <+: key := by
  rintro ⟨rest, rfl⟩
  obtain ⟨hab, -⟩ := List.cons_prefix_cons.1 h
  exact hne hab

theorem putHeader_receiptId (pm : ParsedMessage) (key value : CStr) :
    (putHeader pm key value).receiptId = if lit "receipt" <+: key then some value else pm.receiptId := by
  have hr : strncmpEq key (lit "receipt") 7 = true ↔ lit "receipt" <+: key := strncmpEq_iff
  unfold putHeader
  simp only [hr]
  split_ifs <;> rfl

theorem putHeader_id (pm : ParsedMessage) (key value : CStr) :
    (putHeader pm key value).id = if lit "id" <+: key then some value else pm.id := by
  have hr : strncmpEq key (lit "receipt") 7 = true ↔ lit "receipt" <+: key := strncmpEq_iff
  have hi : strncmpEq key (lit "id") 2 = true ↔ lit "id" <+: key := strncmpEq_iff
  unfold putHeader
  simp only [hr, hi]
  by_cases h : lit "id" <+: key
  · have hr' : ¬ lit "receipt" <+: key := not_prefix_of_head_ne (by decide) h
    simp [h, hr']
  · simp only [h, if_false]
    split_ifs <;> rfl

theorem putHeader_topic (pm : ParsedMessage) (key value : CStr) :
    (putHeader pm key value).topic = if lit "destination" <+: key then some value else pm.topic := by
  have hr : strncmpEq key (lit "receipt") 7 = true ↔ lit "receipt" <+: key := strncmpEq_iff
  have hi : strncmpEq key (lit "id") 2 = true ↔ lit "id" <+: key := strncmpEq_iff
  have hd : strncmpEq key (lit "destination") 11 = true ↔ lit "destination" <+: key := strncmpEq_iff
  unfold putHeader
  simp only [hr, hi, hd]
  by_cases h : lit "destination" <+: key
  · have hr' : ¬ lit "receipt" <+: key := not_prefix_of_head_ne (by decide) h
    have hi' : ¬ lit "id" <+: key := not_prefix_of_head_ne (by decide) h
    simp [h, hr', hi']
  · simp only [h, if_false]
    split_ifs <;> rfl

theorem lastWith_snoc : lastWith name (pairs ++ [(key, value)]) =
    if name <+: key then some value else lastWith name pairs := by
  simp only [lastWith, List.reverse_append, List.reverse_singleton, List.singleton_append, List.find?_cons]
  by_cases h : name <+: key
  · simp [h, List.isPrefixOf_iff_prefix.2 h]
  · have hf : name.isPrefixOf key = false := Bool.eq_false_iff.2 fun ht => h (List.isPrefixOf_iff_prefix.1 ht)
    simp [h, hf]

theorem lookup_snoc : (pairs ++ [(key, value)]).reverse.lookup name =
    if name = key then some value else pairs.reverse.lookup name := by
  rw [List.reverse_append, List.reverse_singleton, List.singleton_append, List.lookup_cons]
  by_cases h : name = key
  · simp [h]
  · rw [beq_false_of_ne h, if_neg h]

theorem field_putHeaders {field : ParsedMessage → Option CStr}
    (hput : ∀ pm key value, field (putHeader pm key value) = if name <+: key then some value else field pm)
    {pm : ParsedMessage} (h0 : field pm = none) (pairs : List (CStr × CStr)) :
    field (putHeaders pm pairs) = lastWith name pairs := by
  induction pairs using List.reverseRecOn with
  | nil => exact h0
  | append_singleton pairs p ih =>
    rw [lastWith_snoc, ← ih, ← hput]
    simp [putHeaders, List.foldl_append]

theorem overridden_snoc : Overridden name (pairs ++ [(key, value)]) ↔
    if name <+: key then key ≠ name ∧ pairs.reverse.lookup name ≠ some value else Overridden name pairs := by
  split_ifs with hp
  · constructor
    · rintro ⟨before, k, v, after, he, hk, hne, hafter, hv⟩
      -- the last header itself starts with the name, so nothing follows the one that overrides
      rcases List.eq_nil_or_concat after with rfl | ⟨after', q, rfl⟩
      · obtain ⟨rfl, hkv⟩ := List.append_inj' he rfl
        simp only [List.cons.injEq, Prod.mk.injEq, and_true] at hkv
        exact ⟨hkv.1 ▸ hne, hkv.2 ▸ hv⟩
      · rw [List.concat_eq_append, ← List.cons_append, ← List.append_assoc] at he
        obtain ⟨-, hq⟩ := List.append_inj' he rfl
        have hq' := hafter q (by simp)
        rw [← List.cons_eq_cons.1 hq |>.1] at hq'
        exact absurd hp hq'
    · rintro ⟨hne, hv⟩
      exact ⟨pairs, key, value, [], rfl, hp, hne, by simp, hv⟩
  · constructor
    · rintro ⟨before, k, v, after, he, hk, hne, hafter, hv⟩
      rcases List.eq_nil_or_concat after with rfl | ⟨after', q, rfl⟩
      · obtain ⟨-, hkv⟩ := List.append_inj' he rfl
        simp only [List.cons.injEq, Prod.mk.injEq, and_true] at hkv
        exact absurd (hkv.1 ▸ hk) hp
      · rw [List.concat_eq_append, ← List.cons_append, ← List.append_assoc] at he
        obtain ⟨rfl, -⟩ := List.append_inj' he rfl
        exact ⟨before, k, v, after', rfl, hk, hne, fun p hp' => hafter p (by simp [hp']), hv⟩
    · rintro ⟨before, k, v, after, rfl, hk, hne, hafter, hv⟩
      refine ⟨before, k, v, after ++ [(key, value)], by simp, hk, hne, ?_, hv⟩
      intro p hp'
      rcases List.mem_append.1 hp' with hp' | hp'
      · exact hafter p hp'
      · rw [List.mem_singleton.1 hp']
        exact hp

/-- The last value under the first bytes is the last value under the name unless it is overridden. -/
theorem lastWith_eq_lookup_iff (name : CStr) (pairs : List (CStr × CStr)) :
    lastWith name pairs = pairs.reverse.lookup name ↔ ¬ Overridden name pairs := by
  induction pairs using List.reverseRecOn with
  | nil =>
    refine iff_of_true rfl ?_
    rintro ⟨before, k, v, after, he, -⟩
    simp at he
  | append_singleton pairs p ih =>
    obtain ⟨key, value⟩ := p
    rw [overridden_snoc, lastWith_snoc, lookup_snoc]
    by_cases hp : name <+: key
    · rw [if_pos hp, if_pos hp]
      by_cases hk : name = key
      · simp [hk]
      · rw [if_neg hk]
        have hk' : key ≠ name := fun he => hk he.symm
        simp [hk', eq_comm]
    · have hk : name ≠ key := fun he => hp (he ▸ List.prefix_rfl)
      rw [if_neg hp, if_neg hp, if_neg hk, ih]

theorem lookup_eq_none_iff (name : CStr) (pairs : List (CStr × CStr)) :
    pairs.reverse.lookup name = none ↔ name ∉ pairs.map Prod.fst := by
  rw [← find_eq_lookup, SortedAssoc.find_eq_none_iff]
  simp

end Names

/-- One special field: it agrees with the map exactly when no longer name overrides it. -/
theorem agrees_iff {name : CStr} {field : ParsedMessage → Option CStr}
    (hput : ∀ pm key value, field (putHeader pm key value) = if name <+: key then some value else field pm)
    {m : MessageWithTimestamp} (h0 : field (emptyMessage m) = none) (pairs : List (CStr × CStr)) :
    Agrees (field (putHeaders (emptyMessage m) pairs)) name (putHeaders (emptyMessage m) pairs).headers pairs ↔
      ¬ Overridden name pairs := by
  rw [Agrees, aaValue_putHeaders, field_putHeaders hput h0, ← lookup_eq_none_iff, ← lastWith_eq_lookup_iff]
  exact ⟨fun h => h.1, fun h => ⟨h, by rw [h]⟩⟩

/-- The special fields agree with the header map exactly on the frames in which no longer header
name has the last word on one of them. -/
theorem special_fields_agree_iff {past : List UInt8} {m : MessageWithTimestamp} {pm : ParsedMessage}
    (h : parseMessage past m = some pm) (hk : pm.command ≠ .unknown) :
    FieldsAgree m.content pm ↔
      ∀ name ∈ [lit "destination", lit "id", lit "receipt"], ¬ Overridden name (frameHeaders m.content) := by
  rw [parseMessage_command h] at hk
  obtain rfl := parseMessage_eq_some hk h
  have ht := agrees_iff putHeader_topic (m := m) rfl (frameHeaders m.content)
  have hi := agrees_iff putHeader_id (m := m) rfl (frameHeaders m.content)
  have hr := agrees_iff putHeader_receiptId (m := m) rfl (frameHeaders m.content)
  constructor
  · rintro ⟨htopic, hid, hreceipt⟩
    simpa using ⟨ht.1 htopic, hi.1 hid, hr.1 hreceipt⟩
  · intro hall
    exact ⟨ht.2 (hall _ (by simp)), hi.2 (hall _ (by simp)), hr.2 (hall _ (by simp))⟩

def subscribeFrame : MessageWithTimestamp := ⟨1, lit "SUBSCRIBE\nid:1\ndestination:/a\n\n", 0⟩

theorem special_fields_agree_subscribe : ∃ pm, parseMessage [] subscribeFrame = some pm ∧
    pm.command ≠ .unknown ∧ FieldsAgree subscribeFrame.content pm := by
  obtain ⟨pm, hpm⟩ := Option.isSome_iff_exists.1 (by decide : (parseMessage [] subscribeFrame).isSome = true)
  have hk : pm.command ≠ .unknown := by
    rw [parseMessage_command hpm]
    decide
  refine ⟨pm, hpm, hk, (special_fields_agree_iff hpm hk).2 ?_⟩
  intro name hname
  refine (lastWith_eq_lookup_iff name (frameHeaders subscribeFrame.content)).1 ?_
  revert name
  decide

def identityFrame : MessageWithTimestamp := ⟨1, lit "SUBSCRIBE\nid:1\nidentity:2\ndestination:/a\n\n", 0⟩

/-- A header `identity` behind `id` replaces the field and leaves the map. -/
theorem identity_overrides_id : ∃ pm, parseMessage [] identityFrame = some pm ∧
    pm.command ≠ .unknown ∧ ¬ FieldsAgree identityFrame.content pm := by
  obtain ⟨pm, hpm⟩ := Option.isSome_iff_exists.1 (by decide : (parseMessage [] identityFrame).isSome = true)
  have hid : ((parseMessage [] identityFrame).bind fun pm => pm.id) = some (lit "2") := by decide
  have hvalue : ((parseMessage [] identityFrame).bind fun pm => aaValue (lit "id") pm.headers) = some (lit "1") := by
    decide
  have hcommand : (parseMessage [] identityFrame).map (·.command) = some .subscribe := by decide
  simp only [hpm, Option.bind_some, Option.map_some, Option.some.injEq] at hid hvalue hcommand
  refine ⟨pm, hpm, by simp [hcommand], fun h => ?_⟩
  have hagree := h.id.1
  rw [hid, hvalue] at hagree
  exact absurd hagree (by decide)

end StompBroker.SpecialFields
