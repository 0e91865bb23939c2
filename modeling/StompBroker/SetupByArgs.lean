import StompBroker.ParseArgs

/-! The configuration from the arguments of an embedding program, and the one from a command line that says
the same. -/
namespace StompBroker.SetupByArgs
open CString StompParser ParseArgs

/-- The arguments of `config_setup_by_args`. -/
structure Args where
  processors : BitVec 32
  port : BitVec 32
  maxInputQueueSize : BitVec 32
  maxStaleQueueSize : BitVec 32
  ttl : BitVec 32
  deriving DecidableEq, Repr

/-- `buffer` is what an earlier call has left in the static buffer; a call without a port takes it over. -/
def configSetupByArgs (nprocs : BitVec 32) (buffer : CStr) (args : Args) : StompAppConfig :=
  configSetupMissingDefaults nprocs { configInit with
    processors := args.processors
    port := some (if args.port = 0#32 then buffer else decimalInt args.port.toInt)
    maxInputQueueSize := args.maxInputQueueSize
    maxStaleQueueSize := args.maxStaleQueueSize
    ttl := args.ttl * 1000 }

inductive Setting
  | processors (n : BitVec 32)
  | port (n : BitVec 32)
  | maxInputQueueSize (n : BitVec 32)
  | maxStaleQueueSize (n : BitVec 32)
  | ttl (n : BitVec 32)
  deriving DecidableEq, Repr

def Setting.name : Setting → CStr
  | .processors _ => lit "processors"
  | .port _ => lit "port"
  | .maxInputQueueSize _ => lit "max_input_queue_size"
  | .maxStaleQueueSize _ => lit "max_stale_queue_size"
  | .ttl _ => lit "TTL"

def Setting.value : Setting → BitVec 32
  | .processors n | .port n | .maxInputQueueSize n | .maxStaleQueueSize n | .ttl n => n

def Setting.text (s : Setting) : CStr := s.name ++ equalsSign :: decimalInt s.value.toInt

def Setting.apply (args : Args) : Setting → Args
  | .processors n => { args with processors := n }
  | .port n => { args with port := n }
  | .maxInputQueueSize n => { args with maxInputQueueSize := n }
  | .maxStaleQueueSize n => { args with maxStaleQueueSize := n }
  | .ttl n => { args with ttl := n }

def noArgs : Args := ⟨0, 0, 0, 0, 0⟩

def Ignored (arg : CStr) : Prop := ∀ config, configParseOne config arg = some config

def portText (port : BitVec 32) : Option CStr := if port = 0#32 then none else some (decimalInt port.toInt)

/-- What the command line has stored once it has said as much. -/
def stored (args : Args) : StompAppConfig := { configInit with
  processors := args.processors
  port := portText args.port
  maxInputQueueSize := args.maxInputQueueSize
  maxStaleQueueSize := args.maxStaleQueueSize
  ttl := args.ttl * 1000 }

theorem mem_decimalInt {z : ℤ} {c : UInt8} (h : c ∈ decimalInt z) : c = 45 ∨ isDigit c = true := by
  unfold decimalInt at h
  split_ifs at h
  · rcases List.mem_append.1 h with h | h
    · exact .inl (by simpa [lit] using h)
    · exact .inr (isDigit_of_mem_decimal h)
  · exact .inr (isDigit_of_mem_decimal h)

theorem decimalInt_ne_nil (z : ℤ) : decimalInt z ≠ [] := by
  unfold decimalInt
  split_ifs
  · simp [decimal_ne_nil]
  · exact decimal_ne_nil _

theorem equalsSign_notMem_decimalInt (z : ℤ) : equalsSign ∉ decimalInt z := by
  intro h
  rcases mem_decimalInt h with h | h <;> revert h <;> decide

/-- The digits of a 32-bit number and its sign leave room in the buffer. -/
theorem length_decimalInt_lt (n : BitVec 32) : (decimalInt n.toInt).length < portBufferSize := by
  have hsmall : n.toInt.natAbs < 10 ^ 10 := by
    have := n.isLt
    rw [BitVec.toInt_eq_toNat_cond]
    split_ifs <;> omega
  have hdigits : (decimal n.toInt.natAbs).length ≤ 10 := by
    rw [decimal, List.length_map]
    exact (Nat.length_toDigits_le_iff (by decide) (by decide)).2 hsmall
  have hsign : (lit "-").length = 1 := by decide
  have hroom : portBufferSize = 20 := rfl
  unfold decimalInt
  split_ifs
  · rw [List.length_append]
    omega
  · omega

theorem sscanfInt_decimalInt (n : BitVec 32) : sscanfInt (decimalInt n.toInt) = some n := by
  rcases lt_or_ge n.toInt 0 with hneg | hpos
  · have hdigits : (decimal n.toInt.natAbs).takeWhile isDigit = decimal n.toInt.natAbs := (takeWhile_decimal _ fun c h => h).1
    have htext : decimalInt n.toInt = 45 :: decimal n.toInt.natAbs := by
      rw [decimalInt, if_pos hneg]
      rfl
    have hskip : (45 :: decimal n.toInt.natAbs).dropWhile isSpace = 45 :: decimal n.toInt.natAbs :=
      List.dropWhile_cons_of_neg (by decide)
    have hlow := n.le_toInt
    have hvalue : max (-2 ^ 63 : ℤ) (min (-(n.toInt.natAbs : ℤ)) (2 ^ 63 - 1)) = n.toInt := by omega
    simp only [htext, sscanfInt, hskip, List.head?_cons, true_or, if_true, List.tail_cons, hdigits, decimal_ne_nil, if_false,
      digitsValue_decimal, hvalue, BitVec.ofInt_toInt]
  · have htext : decimalInt n.toInt = decimal n.toNat := by
      have hsame : n.toInt.natAbs = n.toNat := by
        rw [BitVec.toInt_eq_toNat_cond] at hpos ⊢
        split_ifs at hpos ⊢ <;> omega
      rw [decimalInt, if_neg (by omega), hsame]
    rw [htext, sscanfInt_decimal]

theorem strtok_name {name : CStr} (hne : name ≠ []) (hname : equalsSign ∉ name) (rest : CStr) :
    strtok (name ++ equalsSign :: rest) equalsSign = some (name, rest) := by
  have hskip : (name ++ equalsSign :: rest).dropWhile (· == equalsSign) = name ++ equalsSign :: rest := by
    obtain ⟨c, cs, rfl⟩ := List.exists_cons_of_ne_nil hne
    exact List.dropWhile_cons_of_neg (by simpa using fun h : c = equalsSign => hname (h ▸ List.mem_cons_self))
  have hall : ∀ c ∈ name, (c != equalsSign) = true := fun c hc => by simpa using fun h : c = equalsSign => hname (h ▸ hc)
  rw [strtok, hskip, if_neg (by simp), List.takeWhile_append_of_pos hall, List.dropWhile_append_of_pos hall]
  simp

theorem strtok_decimalInt (z : ℤ) : strtok (decimalInt z) equalsSign = some (decimalInt z, []) := by
  have hnone := equalsSign_notMem_decimalInt z
  have hall : ∀ c ∈ decimalInt z, (c != equalsSign) = true := fun c hc => by
    simpa using fun h : c = equalsSign => hnone (h ▸ hc)
  have hskip : (decimalInt z).dropWhile (· == equalsSign) = decimalInt z := by
    obtain ⟨c, cs, hcons⟩ := List.exists_cons_of_ne_nil (decimalInt_ne_nil z)
    rw [hcons] at hnone ⊢
    exact List.dropWhile_cons_of_neg (by simpa using fun h : c = equalsSign => hnone (h ▸ List.mem_cons_self))
  rw [strtok, hskip, if_neg (decimalInt_ne_nil z), List.takeWhile_eq_self_iff.2 hall, List.dropWhile_eq_nil_iff.2 hall]
  rfl

theorem Setting.name_cases (s : Setting) : s.name ≠ [] ∧ equalsSign ∉ s.name := by
  cases s <;> simp only [Setting.name] <;> decide

theorem strtok_text (s : Setting) : strtok s.text equalsSign = some (s.name, decimalInt s.value.toInt) :=
  strtok_name s.name_cases.1 s.name_cases.2 _

theorem configParseOne_text (args : Args) {s : Setting} (hport : ∀ n, s = .port n → n ≠ 0#32) :
    configParseOne (stored args) s.text = some (stored (s.apply args)) := by
  have htoken := strtok_text s
  cases s with
  | processors n =>
    have hname : strncmpEq (lit "processors") (lit "processors") 10 = true := by decide
    simp [configParseOne, htoken, Setting.name, Setting.value, hname, strtok_decimalInt, sscanfInt_decimalInt, stored,
      Setting.apply]
  | port n =>
    have hname : strncmpEq (lit "processors") (lit "port") 10 = false ∧ strncmpEq (lit "port") (lit "port") 4 = true := by decide
    simp [configParseOne, htoken, Setting.name, Setting.value, hname, strtok_decimalInt, length_decimalInt_lt,
      stored, Setting.apply, portText, hport n rfl]
  | maxInputQueueSize n =>
    have hname : strncmpEq (lit "processors") (lit "max_input_queue_size") 10 = false ∧
        strncmpEq (lit "port") (lit "max_input_queue_size") 4 = false ∧
        strncmpEq (lit "max_input_queue_size") (lit "max_input_queue_size") 20 = true := by decide
    simp [configParseOne, htoken, Setting.name, Setting.value, hname, strtok_decimalInt, sscanfInt_decimalInt, stored,
      Setting.apply]
  | maxStaleQueueSize n =>
    have hname : strncmpEq (lit "processors") (lit "max_stale_queue_size") 10 = false ∧
        strncmpEq (lit "port") (lit "max_stale_queue_size") 4 = false ∧
        strncmpEq (lit "max_input_queue_size") (lit "max_stale_queue_size") 20 = false ∧
        strncmpEq (lit "max_stale_queue_size") (lit "max_stale_queue_size") 20 = true := by decide
    simp [configParseOne, htoken, Setting.name, Setting.value, hname, strtok_decimalInt, sscanfInt_decimalInt, stored,
      Setting.apply]
  | ttl n =>
    have hname : strncmpEq (lit "processors") (lit "TTL") 10 = false ∧ strncmpEq (lit "port") (lit "TTL") 4 = false ∧
        strncmpEq (lit "max_input_queue_size") (lit "TTL") 20 = false ∧
        strncmpEq (lit "max_stale_queue_size") (lit "TTL") 20 = false ∧ strncmpEq (lit "TTL") (lit "TTL") 3 = true := by decide
    simp [configParseOne, htoken, Setting.name, Setting.value, hname, strtok_decimalInt, sscanfInt_decimalInt, stored,
      Setting.apply]

theorem configParseParse_texts (args : Args) {settings : List Setting} (hport : ∀ n, .port n ∈ settings → n ≠ 0#32) :
    configParseParse (stored args) (settings.map Setting.text) = some (stored (settings.foldl Setting.apply args)) := by
  induction settings generalizing args with
  | nil => rfl
  | cons s settings ih =>
    have hone : configParseOne (stored args) s.text = some (stored (s.apply args)) :=
      configParseOne_text args fun n hn => hport n (hn ▸ List.mem_cons_self)
    rw [List.map_cons, configParseParse, hone, Option.bind_eq_bind, Option.bind_some, List.foldl_cons]
    exact ih (s.apply args) fun n hn => hport n (List.mem_cons_of_mem s hn)

/-- The defaults make no difference between a port that nobody has named and an empty one. -/
theorem configSetupMissingDefaults_stored (nprocs : BitVec 32) (args : Args) :
    configSetupMissingDefaults nprocs (stored args) = configSetupByArgs nprocs [] args := by
  unfold configSetupByArgs configSetupMissingDefaults stored portText
  by_cases hport : args.port = 0#32 <;> simp [hport, decimalInt_ne_nil]

/-- A command line gives the configuration of a call with the same settings, in whatever order they come and with
the last one of a name. -/
theorem command_line_agrees (nprocs : BitVec 32) {program : CStr} {settings : List Setting} (hprogram : Ignored program)
    (hport : ∀ n, .port n ∈ settings → n ≠ 0#32) :
    configParseArgs nprocs (program :: settings.map Setting.text) =
      some (configSetupByArgs nprocs [] (settings.foldl Setting.apply noArgs)) := by
  have hstart : stored noArgs = configInit := by decide
  rw [configParseArgs, configParseParse, hprogram, Option.bind_eq_bind, Option.bind_some, ← hstart,
    configParseParse_texts noArgs hport, Option.map_some, configSetupMissingDefaults_stored]

theorem command_line_agrees_port :
    configParseArgs 4 (lit "./stompbroker" :: [Setting.port 61613, .ttl 1000, .port 61614].map Setting.text) =
    some (configSetupByArgs 4 [] ⟨0, 61614, 0, 0, 1000⟩) := by
  have hprogram : Ignored (lit "./stompbroker") := by
    intro config
    have htoken : strtok (lit "./stompbroker") equalsSign = some (lit "./stompbroker", []) := by decide
    have hname : strncmpEq (lit "processors") (lit "./stompbroker") 10 = false ∧
        strncmpEq (lit "port") (lit "./stompbroker") 4 = false ∧
        strncmpEq (lit "max_input_queue_size") (lit "./stompbroker") 20 = false ∧
        strncmpEq (lit "max_stale_queue_size") (lit "./stompbroker") 20 = false ∧
        strncmpEq (lit "TTL") (lit "./stompbroker") 3 = false := by decide
    simp [configParseOne, htoken, hname]
  refine command_line_agrees 4 hprogram fun n hn => ?_
  obtain rfl | rfl : n = 61613 ∨ n = 61614 := by simpa using hn
  all_goals decide

end StompBroker.SetupByArgs
