import StompBroker.SpecialFields
import StompBroker.Replies

/-! What the processor makes of frames that are not well formed: a frame without the line that ends
its headers has no body, and a frame whose first line only starts with a command counts as that
command. -/
namespace StompBroker.MalformedFrames
open CString AssociativeArray SessionStorage StompSession Message StompParser PubSub Distribute Stomp StompRun
open DistributeContract Replies FrameText SpecialFields TransitionSystem

/-- A call gets to the code of `distribute_messages` that builds the headers. -/
structure BuildsHeaders (cfg : Config) (env : Environment) (st : StompState) (input : MessageWithTimestamp)
    (pm : ParsedMessage) : Prop where
  frame : isPurge input.fd = false
  send : pm.command = .send
  connected : stompSessionIsConnected st.connected (sessionWithoutFlags input.fd) = true
  fresh : expired env.now input.ts cfg.ttl = false
  matching : ∃ topic, pm.topic = some topic ∧ strchr topic star = none ∧ pubsubFindMatching st.topics topic ≠ []

/-- A call gets to `create_diagnostic_message`, behind the check of the body. -/
def BuildsDiagnostic (input : MessageWithTimestamp) (pm : ParsedMessage) : Prop :=
  isPurge input.fd = false ∧ pm.command = .diagnostic ∧ pm.messageBody ≠ none

/-- Every text and tree that a call uses is there, and so the call returns. -/
structure Supplied (cfg : Config) (env : Environment) (st : StompState) (input : MessageWithTimestamp)
    (pm : ParsedMessage) : Prop where
  headers : BuildsHeaders cfg env st input pm → pm.messageBody ≠ none ∧ pm.headers ≠ .nil
  diagnostic : BuildsDiagnostic input pm → pm.messageBody ≠ none
  returns : stompProcess cfg env st input ≠ none

section Body
variable {cfg : Config} {env : Environment} {st : StompState} {input : MessageWithTimestamp} {pm : ParsedMessage}

theorem body_of_send (hpm : parseMessage env.past input = some pm) (hc : pm.command = .send) :
    pm.messageBody = frameBody input.content := by
  have hk : parseCommand input.content ≠ .unknown := by
    rw [← parseMessage_command hpm, hc]
    decide
  rw [parseMessage_eq_some hk hpm]

theorem distributeMessages_returns {topic : CStr} (hpm : parseMessage env.past input = some pm)
    (ht : pm.topic = some topic)
    (h : expired env.now input.ts cfg.ttl = false → pubsubFindMatching st.topics topic ≠ [] → pm.messageBody ≠ none) :
    distributeMessages cfg env st input pm ≠ none := by
  by_cases he : expired env.now input.ts cfg.ttl = true
  · simp [distributeMessages_expired he]
  by_cases hm : pubsubFindMatching st.topics topic = []
  · simp [distributeMessages_no_match ht hm]
  obtain ⟨st', c, hd⟩ := distributeMessages_total cfg st hpm ht (h (by simpa using he) hm)
  simp [hd]

theorem processCommand_returns (hs : st.stale = []) (hp : isPurge input.fd = false)
    (hpm : parseMessage env.past input = some pm) (h : BuildsHeaders cfg env st input pm → pm.messageBody ≠ none) :
    processCommand cfg env st input pm ≠ none := by
  have hswitch := processCommand_switch cfg env st input pm
  generalize processCommand cfg env st input pm = result at hswitch
  cases hswitch with
  | refuse | connect | disconnect | unsubscribe | diagnostic => exact Option.some_ne_none _
  | subscribe hc hi ht hn =>
    rw [distributeMessagesFromStaleQ_nil (by exact hs)]
    exact Option.some_ne_none _
  | send hc ht hn hw =>
    have hd : distributeMessages cfg env st input pm ≠ none :=
      distributeMessages_returns hpm ht fun he hm => h ⟨hp, hc, hn, he, _, ht, hw, hm⟩
    simpa using hd

/-- In every reachable state, a frame that is parsed finds its body and its headers where they are
used exactly when a frame that gets that far has a line that ends its headers. -/
theorem body_and_headers_supplied_iff {calls : List Call} (hr : Runs cfg stompStart calls st)
    (hpm : parseMessage env.past input = some pm) :
    Supplied cfg env st input pm ↔ (BuildsHeaders cfg env st input pm → BlockEnds input.content) := by
  constructor
  · intro h hb
    rw [blockEnds_iff, ← body_of_send hpm hb.send]
    exact (h.headers hb).1
  · intro h
    have hbody : BuildsHeaders cfg env st input pm → pm.messageBody ≠ none := by
      intro hb
      rw [body_of_send hpm hb.send]
      exact blockEnds_iff.1 (h hb)
    refine ⟨fun hb => ?_, fun hd => hd.2.2, ?_⟩
    · obtain ⟨topic, ht, -, -⟩ := hb.matching
      exact ⟨hbody hb, parseMessage_headers_ne_nil hpm ht⟩
    · by_cases hp : isPurge input.fd = true
      · simp [stompProcess_purge hp]
      · have hp' : isPurge input.fd = false := by simpa using hp
        rw [stompProcess_frame hp' hpm]
        simpa using processCommand_returns (stale_nil hr) hp' hpm hbody

end Body

def subscribeCalls : List Call :=
  [⟨quietEnvironment 0, ⟨5, lit "CONNECT\n\n", 0⟩⟩,
    ⟨quietEnvironment 0, ⟨5, lit "SUBSCRIBE\nid:1\ndestination:/a\n\n", 0⟩⟩]

theorem subscribeCalls_run : ∃ st, Runs lateConfig stompStart subscribeCalls st ∧
    stompSessionIsConnected st.connected 5 = true ∧ pubsubFindMatching st.topics (lit "/a") ≠ [] :=
  exists_run_of_exec (by decide)

theorem buildsHeaders_of_subscribed {st : StompState} {input : MessageWithTimestamp} {pm : ParsedMessage}
    (hconnected : stompSessionIsConnected st.connected 5 = true)
    (hmatching : pubsubFindMatching st.topics (lit "/a") ≠ []) (hfd : input.fd = 5) (hts : input.ts = 0)
    (hc : pm.command = .send) (ht : pm.topic = some (lit "/a")) :
    BuildsHeaders lateConfig (quietEnvironment 0) st input pm := by
  have hframe : isPurge input.fd = false := by
    rw [hfd]
    decide
  have hsession : sessionWithoutFlags input.fd = 5 := by
    rw [hfd]
    decide
  exact ⟨hframe, hc, by rw [hsession, hconnected], by simp [expired, hts], lit "/a", ht, by decide, hmatching⟩

theorem finished_send_supplied : ∃ st pm, Runs lateConfig stompStart subscribeCalls st ∧
    BuildsHeaders lateConfig (quietEnvironment 0) st ⟨5, lit "SEND\ndestination:/a\n\nhello", 0⟩ pm ∧
    Supplied lateConfig (quietEnvironment 0) st ⟨5, lit "SEND\ndestination:/a\n\nhello", 0⟩ pm := by
  obtain ⟨st, hr, hconnected, hmatching⟩ := subscribeCalls_run
  have hpm : parseMessage (quietEnvironment 0).past ⟨5, lit "SEND\ndestination:/a\n\nhello", 0⟩ =
      some ⟨.send, .node 1 (lit "destination") (lit "/a") .nil .nil, none, some (lit "hello"), some (lit "/a"),
        none, 0⟩ := by decide
  exact ⟨st, _, hr, buildsHeaders_of_subscribed hconnected hmatching rfl rfl rfl rfl,
    (body_and_headers_supplied_iff hr hpm).2 fun _ => by decide⟩

/-- A SEND that ends inside its headers: the message matches a subscription and has no body. -/
theorem unfinished_send_not_supplied : ∃ st pm, Runs lateConfig stompStart subscribeCalls st ∧
    parseMessage (quietEnvironment 0).past ⟨5, lit "SEND\ndestination:/a\nkey:value", 0⟩ = some pm ∧
    BuildsHeaders lateConfig (quietEnvironment 0) st ⟨5, lit "SEND\ndestination:/a\nkey:value", 0⟩ pm ∧
    ¬ Supplied lateConfig (quietEnvironment 0) st ⟨5, lit "SEND\ndestination:/a\nkey:value", 0⟩ pm := by
  obtain ⟨st, hr, hconnected, hmatching⟩ := subscribeCalls_run
  have hpm : parseMessage (quietEnvironment 0).past ⟨5, lit "SEND\ndestination:/a\nkey:value", 0⟩ =
      some ⟨.send, .node 1 (lit "destination") (lit "/a") .nil .nil, none, none, some (lit "/a"), none, 0⟩ := by decide
  have hbuilds := buildsHeaders_of_subscribed hconnected hmatching
    (rfl : (⟨5, lit "SEND\ndestination:/a\nkey:value", 0⟩ : MessageWithTimestamp).fd = 5) rfl
    (rfl : (⟨.send, .node 1 (lit "destination") (lit "/a") .nil .nil, none, none, some (lit "/a"), none, 0⟩ :
      ParsedMessage).command = .send) rfl
  exact ⟨st, _, hr, hpm, hbuilds, fun h => (h.headers hbuilds).1 rfl⟩

/-- The text up to the first line feed, without a trailing carriage return. -/
def firstLine (content : CStr) : CStr :=
  let line := (content.splitOn nl).headD []
  if line.getLast? = some cr then line.dropLast else line

def NotACommand (content : CStr) : Prop := ∀ word : CommandWord, firstLine content ≠ word.text

/-- The call answers with one ERROR to the sender and changes nothing else. -/
def Refused (cfg : Config) (env : Environment) (st : StompState) (input : MessageWithTimestamp) : Prop :=
  ∃ st' frame, stompProcess cfg env st input = some (st', 0) ∧ st'.output = st.output ++ [frame] ∧
    isError frame = true ∧ frame.fd = input.fd ∧ st'.topics = st.topics ∧ st'.connected = st.connected ∧
    st'.stale = st.stale ∧ st'.messageId = st.messageId ∧ st'.nextCounter = st.nextCounter

def diagnosticWords : List CStr :=
  [lit "session-size", lit "session-encoded-size", lit "session-connected-size", lit "pubsub-size", lit "session",
    lit "subs", lit "ws_buffer", lit "stale"]

def readFrame (input : MessageWithTimestamp) : ParsedMessage :=
  { putHeaders (emptyMessage input) (frameHeaders input.content) with messageBody := frameBody input.content }

/-- The parser returns: it stops before the last line, or finds a colon there or behind the text. -/
def ParserReturns (past : List UInt8) (content : CStr) : Prop :=
  nl ∈ content → frameBody content = none → colon ∈ lastRow content ++ 0 :: past

/-- A frame is turned away: it does not start with a command, or the command that it starts with is
not carried out for the state of its sender and the headers and body of the frame. -/
def TurnedAway (env : Environment) (st : StompState) (input : MessageWithTimestamp) : Prop :=
  parseCommand input.content = .unknown ∨
    (ParserReturns env.past input.content ∧
      (¬ Accepted st input (readFrame input) ∨
        (parseCommand input.content = .diagnostic ∧
          ∃ body, frameBody input.content = some body ∧ ∀ word ∈ diagnosticWords, ¬ word <+: body)))

theorem readFrame_command (input : MessageWithTimestamp) : (readFrame input).command = parseCommand input.content :=
  putHeaders_command _ _

section Refusal
variable {cfg : Config} {env : Environment} {st : StompState} {input : MessageWithTimestamp}

theorem parseMessage_readFrame {pm : ParsedMessage} (hk : parseCommand input.content ≠ .unknown) :
    parseMessage env.past input = some pm ↔ ParserReturns env.past input.content ∧ readFrame input = pm := by
  rw [parseMessage_text env.past hk]
  split_ifs with h
  · exact iff_of_false (by simp) fun hr => h.2.2 (hr.1 h.1 h.2.1)
  · have hr : ParserReturns env.past input.content := fun hnl hb => not_not.1 fun hc => h ⟨hnl, hb, hc⟩
    simp [hr, readFrame]

/-- One test of the chain: its word is answered, the others are left to the rest. -/
theorem isError_answer {word body value : CStr} {words : List CStr} {fd : Fd} {rest : MessageWithFrameLen}
    (hrest : isError rest = true ↔ ∀ word ∈ words, ¬ word <+: body) :
    isError (if strncmpEq body word word.length then messageDiagnostic fd body value else rest) = true ↔
      ∀ w ∈ word :: words, ¬ w <+: body := by
  rw [List.forall_mem_cons, ← hrest, ← strncmpEq_iff]
  split_ifs with hword <;> simp [hword]

theorem isError_createDiagnosticMessage (body : CStr) :
    isError (createDiagnosticMessage env st input body) = true ↔ ∀ word ∈ diagnosticWords, ¬ word <+: body := by
  -- the words stand in the order of the tests
  iterate 8 apply isError_answer
  simp

theorem processCommand_refused {pm : ParsedMessage} (h : ¬ Accepted st input pm) :
    ∃ reason, processCommand cfg env st input pm = some (st, some (messageError input.fd (lit reason))) := by
  have hswitch := processCommand_switch cfg env st input pm
  generalize processCommand cfg env st input pm = result at hswitch
  cases hswitch with
  | refuse reason hr => exact ⟨reason, rfl⟩
  | connect hc hn => exact absurd (by simp [Accepted, hc, hn]) h
  | disconnect hc hn => exact absurd (by simp [Accepted, hc, hn]) h
  | subscribe hc hi ht hn => exact absurd (by simp [Accepted, hc, hi, ht, hn]) h
  | unsubscribe hc hi ht hn => exact absurd (by simp [Accepted, hc, hi, ht, hn]) h
  | send hc ht hn hw => exact absurd (by simp [Accepted, hc, ht, hn, hw]) h
  | diagnostic hc hb => exact absurd (by simp [Accepted, hc, hb]) h

theorem refused_of_processCommand {pm : ParsedMessage} {frame : MessageWithFrameLen} (hp : isPurge input.fd = false)
    (hpm : parseMessage env.past input = some pm) (h : processCommand cfg env st input pm = some (st, some frame))
    (he : isError frame = true) (hf : frame.fd = input.fd) : Refused cfg env st input := by
  refine ⟨{ st with output := st.output ++ [frame] }, frame, ?_, rfl, he, hf, rfl, rfl, rfl, rfl, rfl⟩
  rw [stompProcess_frame hp hpm, h]
  rfl

theorem refused_of_unknown (hp : isPurge input.fd = false) (hk : parseCommand input.content = .unknown) :
    Refused cfg env st input := by
  have hrefused : ¬ Accepted st input (emptyMessage input) := by simp [Accepted, emptyMessage, hk]
  obtain ⟨reason, hc⟩ := @processCommand_refused cfg env st input _ hrefused
  exact refused_of_processCommand hp (parseMessage_unknown env.past hk) hc rfl rfl

/-- A frame that is carried out, a DIAG apart, is not answered with an ERROR. -/
theorem no_error_of_accepted {st₁ : StompState} {pm : ParsedMessage} {resp : Option MessageWithFrameLen}
    (hs : st.stale = []) (hacc : Accepted st input pm) (hdiag : pm.command ≠ .diagnostic)
    (h : processCommand cfg env st input pm = some (st₁, resp)) :
    ∃ frames, st₁.output ++ closingFrame input pm resp = st.output ++ frames ∧
      ∀ frame ∈ frames, isError frame = false := by
  -- without a reply the frames are messages and the receipt asked for
  have hreceipt : ∀ messages : List MessageWithFrameLen, (∀ m ∈ messages, m.isMessage = true) →
      ∃ frames, st.output ++ messages ++ closingFrame input pm none = st.output ++ frames ∧
        ∀ frame ∈ frames, isError frame = false :=
    fun messages hm => ⟨messages ++ (pm.receiptId.map (messageReceipt input.fd)).toList,
      by simp [closingFrame], fun _ hf => isError_of_relayed hm hf⟩
  have hnone := hreceipt [] (by simp)
  rw [List.append_nil] at hnone
  have hswitch := processCommand_switch cfg env st input pm
  generalize processCommand cfg env st input pm = result at h hswitch
  cases hswitch with
  | refuse reason hr => exact absurd hacc hr
  | diagnostic hc hb => exact absurd hc hdiag
  | connect hc hn =>
    cases h
    exact ⟨[messageConnected input.fd (sessionWithoutFlags input.fd)], rfl, by simp⟩
  | disconnect hc hn =>
    cases h
    exact hnone
  | unsubscribe hc hi ht hn =>
    cases h
    exact hnone
  | subscribe hc hi ht hn =>
    rw [distributeMessagesFromStaleQ_nil (by exact hs)] at h
    cases h
    exact hnone
  | send hc ht hn hw =>
    obtain ⟨⟨st', consumption⟩, hd, he⟩ := Option.map_eq_some_iff.1 h
    cases he
    obtain ⟨messages, hout, hm⟩ := distributeMessages_messages hd
    rw [hout]
    exact hreceipt messages hm

theorem processCommand_diagnostic {pm : ParsedMessage} {body : CStr} (hc : pm.command = .diagnostic)
    (hb : pm.messageBody = some body) :
    processCommand cfg env st input pm = some (st, some (createDiagnosticMessage env st input body)) := by
  simp [processCommand, hc, hb]

/-- A frame is refused exactly when it is turned away. -/
theorem refused_iff_turnedAway (hs : st.stale = []) (hp : isPurge input.fd = false) :
    Refused cfg env st input ↔ TurnedAway env st input := by
  constructor
  · rintro ⟨st', frame, hreturn, hout, herror, -⟩
    by_cases hk : parseCommand input.content = .unknown
    · exact .inl hk
    cases hpm : parseMessage env.past input with
    | none => simp [stompProcess, hp, hpm] at hreturn
    | some pm =>
      obtain ⟨hparser, rfl⟩ := (parseMessage_readFrame hk).1 hpm
      refine .inr ⟨hparser, ?_⟩
      rw [stompProcess_frame hp hpm] at hreturn
      obtain ⟨⟨st₁, resp⟩, hc, he⟩ := Option.map_eq_some_iff.1 hreturn
      obtain rfl := (Prod.mk.inj he).1
      by_cases hacc : Accepted st input (readFrame input)
      swap
      · exact .inl hacc
      by_cases hdiag : (readFrame input).command = .diagnostic
      · have hbody : (readFrame input).messageBody ≠ none := by
          simpa [Accepted, hdiag] using hacc
        obtain ⟨body, hb⟩ := Option.ne_none_iff_exists'.1 hbody
        rw [processCommand_diagnostic hdiag hb] at hc
        cases hc
        have heq : createDiagnosticMessage env st input body = frame :=
          List.singleton_injective (List.append_cancel_left hout)
        refine .inr ⟨(readFrame_command input).symm.trans hdiag, body, hb, ?_⟩
        rw [← @isError_createDiagnosticMessage env st input, heq]
        exact herror
      · obtain ⟨frames, hframes, hno⟩ := no_error_of_accepted hs hacc hdiag hc
        have heq : frames = [frame] := List.append_cancel_left (hframes.symm.trans hout)
        have hfalse := hno frame (by simp [heq])
        rw [herror] at hfalse
        cases hfalse
  · rintro (hk | ⟨hparser, hno⟩)
    · exact refused_of_unknown hp hk
    · by_cases hk : parseCommand input.content = .unknown
      · exact refused_of_unknown hp hk
      have hpm := (parseMessage_readFrame hk).2 ⟨hparser, rfl⟩
      rcases hno with hacc | ⟨hdiag, body, hb, hwords⟩
      · obtain ⟨reason, hc⟩ := @processCommand_refused cfg env st input _ hacc
        exact refused_of_processCommand hp hpm hc rfl rfl
      · have hc := @processCommand_diagnostic cfg env st input _ body ((readFrame_command input).trans hdiag) hb
        exact refused_of_processCommand hp hpm hc ((isError_createDiagnosticMessage body).2 hwords)
          (createDiagnosticMessage_reply env st input body).1

/-- In every reachable state, the frames whose first line is no command are refused exactly when they
are turned away: not for their first line, but because they do not even start with a command, or for
another reason. -/
theorem unknown_commands_refused_iff {calls : List Call} (hr : Runs cfg stompStart calls st)
    (hp : isPurge input.fd = false) :
    (NotACommand input.content → Refused cfg env st input) ↔
      (NotACommand input.content → TurnedAway env st input) :=
  imp_congr_right fun _ => refused_iff_turnedAway (stale_nil hr) hp

end Refusal

theorem empty_command_refused : NotACommand (lit "\n\n") ∧
    Refused lateConfig (quietEnvironment 0) stompStart ⟨5, lit "\n\n", 0⟩ := by
  have hnot : NotACommand (lit "\n\n") := by
    intro word
    cases word <;> decide
  exact ⟨hnot, (unknown_commands_refused_iff (.nil stompStart) (by decide)).2 (fun _ => .inl (by decide)) hnot⟩

/-- The first line CONNECTED counts as CONNECT. -/
theorem connected_line_connects : NotACommand (lit "CONNECTED\n\n") ∧
    Runs lateConfig stompStart [] stompStart ∧ isPurge 5 = false ∧
    ¬ Refused lateConfig (quietEnvironment 0) stompStart ⟨5, lit "CONNECTED\n\n", 0⟩ := by
  refine ⟨?_, .nil stompStart, by decide, ?_⟩
  · intro word
    cases word <;> decide
  · rintro ⟨st', frame, hreturn, hout, herror, -⟩
    have hframes : (stompProcess lateConfig (quietEnvironment 0) stompStart ⟨5, lit "CONNECTED\n\n", 0⟩).map
        (fun p => p.1.output) = some [messageConnected 5 5] := by decide
    rw [hreturn, Option.map_some, hout] at hframes
    obtain rfl : frame = messageConnected 5 5 := List.singleton_injective (Option.some_inj.1 hframes)
    simp at herror

end StompBroker.MalformedFrames
