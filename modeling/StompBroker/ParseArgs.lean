import StompBroker.StaleSweep
import Mathlib.Data.List.TakeWhile

/-! The configuration from the command line, and the time to live that it gives to the broker. -/
namespace StompBroker.ParseArgs
open CString SessionStorage Message StompParser PubSub Distribute StaleSweep

structure StompAppConfig where
  port : Option CStr
  backlog : ℕ
  maxInputQueueSize : BitVec 32
  ttl : BitVec 32
  maxStaleQueueSize : BitVec 32
  inputBufferSize : ℕ
  outputBufferSize : ℕ
  processors : BitVec 32
  deriving DecidableEq, Repr

def defaultPort : ℕ := 3490
def defaultBacklog : ℕ := 10
def defaultInputQueueLimit : BitVec 32 := 1000000
def defaultInputBufferSize : ℕ := 16000
def defaultOutputBufferSize : ℕ := 10000

def portBufferSize : ℕ := 20

def equalsSign : UInt8 := 61

def configInit : StompAppConfig := ⟨none, 0, 0, 0, 0, 0, 0, 0⟩

/-- One argument; `none` when a missing token is used or the port does not fit its buffer. -/
def configParseOne (config : StompAppConfig) (arg : CStr) : Option StompAppConfig := do
  let (token, rest) ← strtok arg equalsSign
  if strncmpEq (lit "processors") token 10 then
    let (token, _) ← strtok rest equalsSign
    return { config with processors := (sscanfInt token).getD config.processors }
  else if strncmpEq (lit "port") token 4 then
    let (token, _) ← strtok rest equalsSign
    if token.length < portBufferSize then return { config with port := some token } else none
  else if strncmpEq (lit "max_input_queue_size") token 20 then
    let (token, _) ← strtok rest equalsSign
    return { config with maxInputQueueSize := (sscanfInt token).getD config.maxInputQueueSize }
  else if strncmpEq (lit "max_stale_queue_size") token 20 then
    let (token, _) ← strtok rest equalsSign
    return { config with maxStaleQueueSize := (sscanfInt token).getD config.maxStaleQueueSize }
  else if strncmpEq (lit "TTL") token 3 then
    let (token, _) ← strtok rest equalsSign
    -- milliseconds to microseconds
    return { config with ttl := (sscanfInt token).getD config.ttl * 1000 }
  else return config

def configParseParse (config : StompAppConfig) : List CStr → Option StompAppConfig
  | [] => some config
  | arg :: argv => do
      let config ← configParseOne config arg
      configParseParse config argv

def configSetupMissingDefaults (nprocs : BitVec 32) (config : StompAppConfig) : StompAppConfig :=
  { port := if config.port.getD [] = [] then some (decimal defaultPort) else config.port
    backlog := defaultBacklog
    maxInputQueueSize := if config.maxInputQueueSize = 0 then defaultInputQueueLimit else config.maxInputQueueSize
    ttl := config.ttl
    maxStaleQueueSize := if config.maxStaleQueueSize = 0 then defaultInputQueueLimit else config.maxStaleQueueSize
    inputBufferSize := defaultInputBufferSize
    outputBufferSize := defaultOutputBufferSize
    processors := if config.processors = 0 then nprocs else config.processors }

def configParseArgs (nprocs : BitVec 32) (argv : List CStr) : Option StompAppConfig :=
  (configParseParse configInit argv).map (configSetupMissingDefaults nprocs)

/-- What `stomp_start` takes over. -/
def stompConfig (config : StompAppConfig) : Config := ⟨config.ttl, config.maxStaleQueueSize⟩

def ttlArgument (ttl : BitVec 32) : CStr := lit "TTL=" ++ decimal ttl.toNat

/-- The argument does not start with the name of the time to live. -/
def NotTtl (arg : CStr) : Prop :=
  ∀ token rest, strtok arg equalsSign = some (token, rest) → strncmpEq (lit "TTL") token 3 = false

theorem takeWhile_decimal {p : UInt8 → Bool} (n : ℕ) (h : ∀ c, isDigit c = true → p c = true) :
    (decimal n).takeWhile p = decimal n ∧ (decimal n).dropWhile p = [] :=
  ⟨List.takeWhile_eq_self_iff.2 fun c hc => h c (isDigit_of_mem_decimal hc),
    List.dropWhile_eq_nil_iff.2 fun c hc => h c (isDigit_of_mem_decimal hc)⟩

theorem dropWhile_decimal {p : UInt8 → Bool} (n : ℕ) (h : ∀ c, isDigit c = true → p c = false) :
    (decimal n).dropWhile p = decimal n := by
  refine List.dropWhile_eq_self_iff.2 fun hl => ?_
  simp [h _ (isDigit_of_mem_decimal (List.getElem_mem hl))]

theorem head_decimal (n : ℕ) : ∃ c, (decimal n).head? = some c ∧ isDigit c = true := by
  obtain ⟨c, cs, h⟩ := List.exists_cons_of_ne_nil (decimal_ne_nil n)
  exact ⟨c, by rw [h, List.head?_cons], isDigit_of_mem_decimal (h ▸ List.mem_cons_self)⟩

theorem not_space_of_isDigit {c : UInt8} (h : isDigit c = true) :
    isSpace c = false ∧ c ≠ 45 ∧ c ≠ 43 ∧ c ≠ equalsSign := by
  have hlow : 48 ≤ c.toNat := by
    simp only [isDigit, UInt8.le_iff_toNat_le, decide_eq_true_eq] at h
    exact h.1
  refine ⟨?_, ?_, ?_, ?_⟩
  · by_contra hspace
    simp only [isSpace, Bool.not_eq_false, decide_eq_true_eq, UInt8.le_iff_toNat_le] at hspace
    rcases hspace with ⟨-, hhigh⟩ | rfl
    · exact absurd (hlow.trans hhigh) (by decide)
    · exact absurd h (by decide)
  all_goals
    rintro rfl
    exact absurd h (by decide)

theorem sscanfInt_decimal (n : BitVec 32) : sscanfInt (decimal n.toNat) = some n := by
  obtain ⟨c, hc, hdigit⟩ := head_decimal n.toNat
  obtain ⟨-, hminus, hplus, -⟩ := not_space_of_isDigit hdigit
  have hspace : (decimal n.toNat).dropWhile isSpace = decimal n.toNat :=
    dropWhile_decimal _ fun c h => (not_space_of_isDigit h).1
  have hdigits : (decimal n.toNat).takeWhile isDigit = decimal n.toNat := (takeWhile_decimal _ fun c h => h).1
  have hlt := n.isLt
  have hrange : max (-2 ^ 63 : ℤ) (min n.toNat (2 ^ 63 - 1)) = n.toNat := by omega
  simp only [sscanfInt, hspace, hc, Option.some.injEq, hminus, hplus, or_self, if_false, hdigits, decimal_ne_nil,
    digitsValue_decimal, hrange, BitVec.ofInt_natCast, BitVec.ofNat_toNat, BitVec.setWidth_eq]

theorem strtok_ttlArgument (ttl : BitVec 32) :
    strtok (ttlArgument ttl) equalsSign = some (lit "TTL", decimal ttl.toNat) := by
  have hname : lit "TTL=" = [84, 84, 76, 61] := by decide
  simp [strtok, ttlArgument, hname, equalsSign]
  decide

theorem strtok_decimal (n : ℕ) : strtok (decimal n) equalsSign = some (decimal n, []) := by
  have hskip : (decimal n).dropWhile (· == equalsSign) = decimal n :=
    dropWhile_decimal _ fun c h => beq_false_of_ne (not_space_of_isDigit h).2.2.2
  obtain ⟨htake, hdrop⟩ := @takeWhile_decimal (· != equalsSign) n fun c h => bne_iff_ne.2 (not_space_of_isDigit h).2.2.2
  simp [strtok, hskip, htake, hdrop, decimal_ne_nil]

section Arguments
variable {config config' : StompAppConfig} {arg : CStr} {argv : List CStr}

theorem ttl_of_bind {β : Type} {x : Option β} {f : β → Option StompAppConfig}
    (hf : ∀ b c, f b = some c → c.ttl = config.ttl) (h : x.bind f = some config') : config'.ttl = config.ttl := by
  obtain ⟨b, -, hb⟩ := Option.bind_eq_some_iff.1 h
  exact hf b _ hb

theorem configParseOne_ttl (h : configParseOne config arg = some config') (hn : NotTtl arg) : config'.ttl = config.ttl := by
  obtain ⟨⟨token, rest⟩, htoken, h⟩ := Option.bind_eq_some_iff.1 h
  have hname := hn token rest htoken
  simp only at h
  split_ifs at h with _ _ _ _ httl
  · exact ttl_of_bind (fun b c hc => by cases hc; rfl) h
  · refine ttl_of_bind (fun b c hc => ?_) h
    split_ifs at hc
    cases hc
    rfl
  · exact ttl_of_bind (fun b c hc => by cases hc; rfl) h
  · exact ttl_of_bind (fun b c hc => by cases hc; rfl) h
  · rw [hname] at httl
    cases httl
  · cases h
    rfl

theorem configParseParse_ttl (h : configParseParse config argv = some config') (hn : ∀ arg ∈ argv, NotTtl arg) :
    config'.ttl = config.ttl := by
  induction argv generalizing config with
  | nil =>
    cases h
    rfl
  | cons arg argv ih =>
    obtain ⟨config₁, h₁, h⟩ := Option.bind_eq_some_iff.1 h
    rw [ih h fun a ha => hn a (List.mem_cons_of_mem arg ha), configParseOne_ttl h₁ (hn arg List.mem_cons_self)]

theorem configParseParse_append (before after : List CStr) :
    configParseParse config (before ++ after) =
      (configParseParse config before).bind fun config => configParseParse config after := by
  induction before generalizing config with
  | nil => rfl
  | cons arg before ih =>
    simp only [List.cons_append, configParseParse, Option.bind_eq_bind, Option.bind_assoc]
    exact congrArg _ (funext fun config => ih)

theorem configParseOne_ttlArgument (config : StompAppConfig) (ttl : BitVec 32) :
    configParseOne config (ttlArgument ttl) = some { config with ttl := ttl * 1000 } := by
  have hnames : strncmpEq (lit "processors") (lit "TTL") 10 = false ∧ strncmpEq (lit "port") (lit "TTL") 4 = false ∧
      strncmpEq (lit "max_input_queue_size") (lit "TTL") 20 = false ∧
      strncmpEq (lit "max_stale_queue_size") (lit "TTL") 20 = false ∧ strncmpEq (lit "TTL") (lit "TTL") 3 = true := by decide
  obtain ⟨h₁, h₂, h₃, h₄, h₅⟩ := hnames
  simp [configParseOne, strtok_ttlArgument, h₁, h₂, h₃, h₄, h₅, strtok_decimal, sscanfInt_decimal]

theorem configParseArgs_ttl {nprocs ttl : BitVec 32} {before after : List CStr} (hn : ∀ arg ∈ after, NotTtl arg)
    (h : configParseArgs nprocs (before ++ ttlArgument ttl :: after) = some config) :
    (stompConfig config).ttl = ttl * 1000 := by
  obtain ⟨config₂, hparse, rfl⟩ := Option.map_eq_some_iff.1 h
  rw [configParseParse_append, Option.bind_eq_some_iff] at hparse
  obtain ⟨config₁, -, hrest⟩ := hparse
  rw [configParseParse, configParseOne_ttlArgument] at hrest
  exact configParseParse_ttl hrest hn

end Arguments

def SendExpired (cfg : Config) (env : Environment) (st : StompState) (input : MessageWithTimestamp) (pm : ParsedMessage) :
    Prop :=
  ∀ topics, distributeMessages cfg env { st with topics := topics } input pm = some ({ st with topics := topics }, .consumed)

/-- The sweep goes on behind the message as if it had not been in the queue. -/
def StaleExpired (now : ℤ) (configuredTtl : BitVec 32) (topic : CStr) (clientSessionId : Fd) (subscriptionId : CStr)
    (pm : ParsedMessage) : Prop :=
  ∀ rest messageId, sweepStale now configuredTtl topic clientSessionId subscriptionId (pm :: rest) messageId =
    sweepStale now configuredTtl topic clientSessionId subscriptionId rest messageId

theorem sendExpired_iff {cfg : Config} {env : Environment} {st : StompState} {input : MessageWithTimestamp}
    {pm : ParsedMessage} : SendExpired cfg env st input pm ↔ expired env.now input.ts cfg.ttl = true := by
  refine ⟨fun h => by_contra fun he => ?_, fun he topics => distributeMessages_expired he⟩
  rw [Bool.not_eq_true] at he
  -- somebody who has subscribed to everything gets a frame
  have h := h [⟨5, lit "*", lit "1"⟩]
  cases ht : pm.topic with
  | none => simp [distributeMessages, he, ht] at h
  | some topic =>
    have hall : topicMatches topic (lit "*") = true := by
      simp [topicMatches, show strchr (lit "*") star = some 0 by decide, show maskLen (lit "*") = 0 by decide, strncmpEq]
    have hmatch : pubsubFindMatching [⟨5, lit "*", lit "1"⟩] topic ≠ [] := by simp [pubsubFindMatching, hall]
    rw [distributeMessages_match he ht hmatch, Option.bind_eq_some_iff] at h
    obtain ⟨body, -, h⟩ := h
    obtain ⟨headers, -, h⟩ := Option.map_eq_some_iff.1 h
    simp only [Prod.mk.injEq, StompState.mk.injEq, and_true, true_and, List.append_right_eq_self] at h
    have hlen := (delivery_messagesOut env { st with topics := [⟨5, lit "*", lit "1"⟩] } topic body headers).length_eq
    rw [h.1, List.length_nil, eq_comm, List.length_eq_zero_iff] at hlen
    exact recipients_ne_nil hmatch hlen

theorem staleExpired_iff {now : ℤ} {configuredTtl : BitVec 32} {topic : CStr} {clientSessionId : Fd} {subscriptionId : CStr}
    {pm : ParsedMessage} :
    StaleExpired now configuredTtl topic clientSessionId subscriptionId pm ↔ expired now pm.ts configuredTtl = true := by
  refine ⟨fun h => by_contra fun he => ?_, fun he rest messageId => by simp [sweepStale, he]⟩
  rw [Bool.not_eq_true] at he
  -- alone in the queue it would be kept or delivered
  have h := h [] 0
  cases ht : pm.topic with
  | none => simp [sweepStale, he, ht] at h
  | some t =>
    cases hm : staleMatches topic t with
    | false => simp [sweepStale, he, ht, hm] at h
    | true =>
      simp only [sweepStale, he, Bool.false_eq_true, if_false, ht, hm, Option.bind_eq_bind, Option.bind_some, if_true] at h
      obtain ⟨body, -, h⟩ := Option.bind_eq_some_iff.1 h
      obtain ⟨headers, -, h⟩ := Option.bind_eq_some_iff.1 h
      simp [deliver] at h

/-- Both tests let a message live exactly as long as the milliseconds say. -/
def TtlExact (cfg : Config) (ttl : ℕ) : Prop :=
  (∀ env st input pm, input.ts ≠ 0 → input.ts ≤ env.now →
    (SendExpired cfg env st input pm ↔ 0 < ttl ∧ env.now - input.ts > 1000 * ttl)) ∧
  ∀ now topic clientSessionId subscriptionId pm, pm.ts ≠ 0 → pm.ts ≤ now →
    (StaleExpired now cfg.ttl topic clientSessionId subscriptionId pm ↔ 0 < ttl ∧ now - pm.ts > 1000 * ttl)

theorem toNat_micros (ttl : BitVec 32) : (ttl * 1000).toNat = 1000 * ttl.toNat % 2 ^ 32 := by
  rw [BitVec.toNat_mul, Nat.mul_comm]
  rfl

theorem expired_micros (ttl : BitVec 32) {ts : ℤ} (hts : ts ≠ 0) (now : ℤ) :
    expired now ts (ttl * 1000) = true ↔ 1000 * ttl.toNat % 2 ^ 32 ≠ 0 ∧ now - ts > (1000 * ttl.toNat % 2 ^ 32 : ℕ) := by
  have hne : ttl * 1000 ≠ 0 ↔ 1000 * ttl.toNat % 2 ^ 32 ≠ 0 := by
    rw [← toNat_micros, ne_eq, ne_eq, ← BitVec.toNat_inj]
    rfl
  rw [expired, decide_eq_true_eq, hne, toNat_micros, and_iff_right hts]

/-- The test is exact while the microseconds fit the field, and beyond that it is wrong for some age. -/
theorem expired_exact_iff (ttl : BitVec 32) :
    (∀ ts now : ℤ, ts ≠ 0 → ts ≤ now →
      (expired now ts (ttl * 1000) = true ↔ 0 < ttl.toNat ∧ now - ts > 1000 * ttl.toNat)) ↔ 1000 * ttl.toNat < 2 ^ 32 := by
  constructor
  · intro h
    by_contra hbig
    have hle : 1000 * ttl.toNat % 2 ^ 32 < 1000 * ttl.toNat := by omega
    by_cases hzero : 1000 * ttl.toNat % 2 ^ 32 = 0
    · -- the wrapped value switches the test off
      have hlate := h 1 (1000 * ttl.toNat + 2) one_ne_zero (by omega)
      rw [expired_micros ttl one_ne_zero] at hlate
      exact (hlate.2 ⟨by omega, by omega⟩).1 hzero
    · -- the wrapped value is too small
      have hearly := h 1 ((1000 * ttl.toNat % 2 ^ 32 : ℕ) + 2) one_ne_zero (by omega)
      rw [expired_micros ttl one_ne_zero] at hearly
      have hlong := (hearly.1 ⟨hzero, by omega⟩).2
      omega
  · intro hfit ts now hts _
    rw [expired_micros ttl hts, Nat.mod_eq_of_lt hfit]
    push_cast
    exact and_congr_left fun _ => by omega

theorem ttlExact_iff {cfg : Config} {ttl : BitVec 32} (h : cfg.ttl = ttl * 1000) :
    TtlExact cfg ttl.toNat ↔ 1000 * ttl.toNat < 2 ^ 32 := by
  rw [← expired_exact_iff, TtlExact, h]
  constructor
  · rintro ⟨-, hstale⟩ ts now hts hnow
    have hone := hstale now [] 0 [] (staleMessage ts []) hts hnow
    rwa [staleExpired_iff] at hone
  · intro hexact
    refine ⟨fun env st input pm hts hnow => ?_, fun now topic clientSessionId subscriptionId pm hts hnow => ?_⟩
    · rw [sendExpired_iff, h]
      exact hexact _ _ hts hnow
    · rw [staleExpired_iff]
      exact hexact _ _ hts hnow

/-- The time to live of a command line is the effective one exactly when its microseconds fit 32 bits. -/
theorem configured_ttl_exact_iff {config : StompAppConfig} {nprocs ttl : BitVec 32} {before after : List CStr}
    (hn : ∀ arg ∈ after, NotTtl arg)
    (h : configParseArgs nprocs (before ++ ttlArgument ttl :: after) = some config) :
    TtlExact (stompConfig config) ttl.toNat ↔ 1000 * ttl.toNat < 2 ^ 32 :=
  ttlExact_iff (configParseArgs_ttl hn h)

/-- A time to live of one second in front of another argument. -/
theorem configured_ttl_exact_iff_second :
    ∃ config, configParseArgs 4 ([lit "stompbroker"] ++ ttlArgument 1000 :: [lit "port=61613"]) = some config ∧
      TtlExact (stompConfig config) 1000 := by
  have hn : ∀ arg ∈ [lit "port=61613"], NotTtl arg := by
    intro arg harg token rest htoken
    obtain rfl := List.mem_singleton.1 harg
    rw [show strtok (lit "port=61613") equalsSign = some (lit "port", lit "61613") by decide, Option.some_inj] at htoken
    cases htoken
    decide
  exact ⟨_, rfl, (@configured_ttl_exact_iff _ 4 1000 [lit "stompbroker"] [lit "port=61613"] hn rfl).2 (by decide)⟩

/-- A time to live of more than an hour becomes less than a millisecond. -/
theorem configured_ttl_wraps :
    ∃ config, configParseArgs 4 [lit "stompbroker", lit "TTL=4294968"] = some config ∧
      (∀ st pm, SendExpired (stompConfig config) (quietEnvironment 1706) st ⟨5, [], 1001⟩ pm) ∧
      ¬ TtlExact (stompConfig config) 4294968 := by
  have hexpired : expired 1706 1001 704 = true := by decide
  refine ⟨_, rfl, fun st pm => sendExpired_iff.2 hexpired, fun h => ?_⟩
  have hsend := (h.1 (quietEnvironment 1706) ⟨[], StompSession.stompSessionInit, [], [], 0, 0⟩
    ⟨5, [], 1001⟩ (staleMessage 0 [])
    (by decide) (by decide)).1 (sendExpired_iff.2 hexpired)
  exact absurd hsend.2 (by decide)

end StompBroker.ParseArgs
