import Seasocks.Proof.PingAnswers
import Seasocks.Proof.Upgrades

/-!
# Conversations

What a connection without compression says: behind a handshake its frames are the answers to the pings it
has taken and, as long as it is open, everything its handler sends.
-/

namespace Seasocks.Connection

open Program Relation WebSocketFrame HybiPacketDecoder

variable {w : World} {c : Connection}

/-! ### What a handler says -/

/-- The message a use of a WebSocket sends. -/
def message : WsCall → Option Message
  | .sendText data => some ⟨.text, cString data⟩
  | .sendBinary data => some ⟨.binary, data⟩
  | .close => none

def spoken (uses : List WsCall) : List Message := uses.filterMap message

/-- What the frames carry besides the pongs. -/
def speech (messages : List Message) : List Message :=
  messages.filter fun message => message.opcode != .pong

/-- The uses a handler makes of the connection in a callback, the last of the calls. -/
def reply (w : World) (calls : List Entry) : Call → List WsCall
  | .onConnect handler => w.onConnect calls handler
  | .onText handler message => w.onText calls handler message
  | .onBinary handler message => w.onBinary calls handler message
  | .onDisconnect handler => w.onDisconnect calls handler
  | _ => []

/-- The uses in all callbacks of the second log, which continues the first. -/
def said (w : World) : List Entry → List Entry → List WsCall
  | _, [] => []
  | before, entry :: calls =>
      reply w (before ++ [entry]) entry.call ++ said w (before ++ [entry]) calls

theorem spoken_append (uses uses' : List WsCall) : spoken (uses ++ uses') = spoken uses ++ spoken uses' :=
  List.filterMap_append

theorem speech_append (messages messages' : List Message) :
    speech (messages ++ messages') = speech messages ++ speech messages' := List.filter_append _ _

theorem said_append (before calls calls' : List Entry) :
    said w before (calls ++ calls') = said w before calls ++ said w (before ++ calls) calls' := by
  induction calls generalizing before with
  | nil =>
      rw [List.append_nil]
      rfl
  | cons entry calls ih =>
      rw [List.cons_append, said, ih, said, List.append_assoc, List.append_assoc]
      rfl

theorem reply_of_callee {call : Call} (calls : List Entry) (h : call.callee = none) :
    reply w calls call = [] := by
  cases call <;> first | rfl | cases h

theorem said_eq_nil (before : List Entry) {calls : List Entry}
    (h : ∀ entry ∈ calls, entry.call.callee = none) : said w before calls = [] := by
  induction calls generalizing before with
  | nil => rfl
  | cons entry calls ih =>
      rw [said, reply_of_callee _ (h entry List.mem_cons_self),
        ih _ fun entry' hmem => h entry' (List.mem_cons_of_mem _ hmem)]
      rfl

/-! ### What a handler hears -/

/-- The message a callback is about. -/
def Call.passed : Call → Option Message
  | .onText _ data => some ⟨.text, data⟩
  | .onBinary _ data => some ⟨.binary, data⟩
  | _ => none

def heard (calls : List Entry) : List Message := calls.filterMap fun entry => Call.passed entry.call

/-- What of a message is for the handler: texts end at a NUL byte. -/
def dueFor (messageState : MessageState) (payload : Bytes) : List Message :=
  match messageState with
  | .textMessage => [⟨.text, cString payload⟩]
  | .binaryMessage => [⟨.binary, payload⟩]
  | _ => []

/-- The message in a frame without compression. -/
def frameData (frame : Bytes) : List Message :=
  match scan frame with
  | .frame f _ => if f.compressed then [] else dueFor (messageStateOf f.opcode) f.payload
  | .incomplete | .invalid => []

def sentOf (entry : Entry) : List Message :=
  match entry.call with
  | .frame frame => frameData frame
  | _ => []

/-- The messages for the handler in the frames taken. -/
def sentIn (calls : List Entry) : List Message := calls.flatMap sentOf

theorem heard_append (calls calls' : List Entry) : heard (calls ++ calls') = heard calls ++ heard calls' :=
  List.filterMap_append

theorem sentIn_append (calls calls' : List Entry) : sentIn (calls ++ calls') = sentIn calls ++ sentIn calls' :=
  List.flatMap_append

theorem sentIn_frame {stream : Bytes} {f : Frame} {size : Nat} (hscan : scan stream = .frame f size)
    (out : Output) : sentIn [⟨.frame (stream.take size), out⟩] =
      if f.compressed then [] else dueFor (messageStateOf f.opcode) f.payload := by
  rw [sentIn, List.flatMap_singleton, sentOf]
  dsimp only
  rw [frameData, scan_take hscan]

theorem sentOf_of_not_frame {entry : Entry} (h : isFrame entry.call = false) : sentOf entry = [] := by
  obtain ⟨call, out⟩ := entry
  cases call <;> first | rfl | cases h

/-! ### What is said between two states -/

/-- From `c` to `c'` the log grows by `calls`, and the frames with `messages` are emitted, up to where the
connection closes: the answers to the pings among the calls and, as long as the connection is open, what the
uses send. Among the calls are the callbacks for the messages in the frames taken. -/
structure Talks (calls : List Entry) (uses : List WsCall) (messages : List Message)
    (c c' : Connection) : Prop where
  calls_eq : c'.calls = c.calls ++ calls
  framed : Framed messages c.out c'.out
  begun : Output.Begins (wire messages) c.out c'.out
  silent : c.closing = true → messages = [] ∧ c'.closing = true
  prefix_spoken : speech messages <+: spoken uses
  whole : c'.closing = false → speech messages = spoken uses
  answers : pongs messages = pings calls
  delivered : heard calls = sentIn calls

theorem Talks.refl (c : Connection) : Talks [] [] [] c c where
  calls_eq := (List.append_nil _).symm
  framed := Framed.refl _
  begun := Output.begins_nil rfl
  silent := fun hclosing => ⟨rfl, hclosing⟩
  prefix_spoken := List.prefix_rfl
  whole := fun _ => rfl
  answers := rfl
  delivered := rfl

theorem Talks.trans {calls calls' : List Entry} {uses uses' : List WsCall}
    {messages messages' : List Message} {c c' c'' : Connection}
    (h : Talks calls uses messages c c') (h' : Talks calls' uses' messages' c' c'') :
    Talks (calls ++ calls') (uses ++ uses') (messages ++ messages') c c'' where
  calls_eq := by rw [h'.calls_eq, h.calls_eq, List.append_assoc]
  framed := h.framed.trans h'.framed
  begun := by
    rw [wire_append]
    refine h.begun.trans h'.begun fun hclosing => ?_
    obtain ⟨rfl, hclosing'⟩ := h'.silent hclosing
    exact ⟨h'.begun.emitted_eq, hclosing'⟩
  silent := fun hclosing => by
    obtain ⟨rfl, hclosing'⟩ := h.silent hclosing
    obtain ⟨rfl, hclosing''⟩ := h'.silent hclosing'
    exact ⟨rfl, hclosing''⟩
  prefix_spoken := by
    rw [speech_append, spoken_append]
    cases hclosing : c'.closing with
    | true =>
        obtain ⟨rfl, -⟩ := h'.silent hclosing
        have hnothing : speech [] = [] := rfl
        rw [hnothing, List.append_nil]
        exact h.prefix_spoken.trans (List.prefix_append _ _)
    | false =>
        rw [h.whole hclosing]
        exact (List.prefix_append_right_inj _).mpr h'.prefix_spoken
  whole := fun hopen => by
    have hopen' : c'.closing = false := by
      by_contra hclosing
      rw [Bool.not_eq_false] at hclosing
      rw [(h'.silent hclosing).2] at hopen
      cases hopen
    rw [speech_append, spoken_append, h.whole hopen', h'.whole hopen]
  answers := by rw [pongs_append, pings_append, h.answers, h'.answers]
  delivered := by rw [heard_append, sentIn_append, h.delivered, h'.delivered]

/-- Nothing is said. -/
theorem Talks.quiet {calls : List Entry} {c' : Connection} (hcalls : c'.calls = c.calls ++ calls)
    (hframed : Framed [] c.out c'.out) (hsame : Output.emitted c'.out = Output.emitted c.out)
    (hclosing : c.closing = true → c'.closing = true)
    (hpings : pings calls = []) (hdelivered : heard calls = sentIn calls) : Talks calls [] [] c c' where
  calls_eq := hcalls
  framed := hframed
  begun := Output.begins_nil hsame
  silent := fun h => ⟨rfl, hclosing h⟩
  prefix_spoken := List.prefix_rfl
  whole := fun _ => rfl
  answers := hpings.symm
  delivered := hdelivered

/-- Only what the relation is about matters. -/
theorem Talks.same {calls : List Entry} {uses : List WsCall} {messages : List Message}
    {c₀ c c' c₁ : Connection} (h : Talks calls uses messages c c') (hcalls₀ : c₀.calls = c.calls)
    (hout₀ : c₀.out = c.out) (hcalls₁ : c₁.calls = c'.calls) (hout₁ : c₁.out = c'.out) :
    Talks calls uses messages c₀ c₁ where
  calls_eq := by rw [hcalls₁, hcalls₀, h.calls_eq]
  framed := by
    rw [hout₀, hout₁]
    exact h.framed
  begun := by
    rw [hout₀, hout₁]
    exact h.begun
  silent := fun hclosing => by
    rw [closing, hout₁]
    rw [closing, hout₀] at hclosing
    exact h.silent hclosing
  prefix_spoken := h.prefix_spoken
  whole := fun hopen => by
    rw [closing, hout₁] at hopen
    exact h.whole hopen
  answers := h.answers
  delivered := h.delivered

/-! ### Sending -/

/-- The frame a use of the WebSocket comes to. -/
theorem sendHybi_talks {call : WsCall} {opcode : Opcode} {payload : Bytes}
    (hmessage : message call = some ⟨opcode, payload⟩) (hopcode : opcode ≠ .pong)
    (hplain : c.perMessageDeflate = false) :
    Ends (sendHybi w opcode payload) c (fun _ c' => c' = { c with out := c'.out } ∧
      ∃ messages, Talks [] [call] messages c c') fun _ _ => False := by
  refine ((sendHybi_framed opcode payload hplain).and (sendHybi_sends opcode payload c)).mono
    (fun _ c' hc' => ?_) fun _ _ h => h.1
  obtain ⟨⟨hsame, hframed, hbegun⟩, hsteps⟩ := hc'
  have hspoken : spoken [call] = [⟨opcode, payload⟩] := by
    rw [spoken, List.filterMap_cons, hmessage]
    rfl
  have hspeech : speech [⟨opcode, payload⟩] = [⟨opcode, payload⟩] :=
    List.filter_cons_of_pos (by simpa using hopcode)
  have hsilent := fun hclosing => Sends.closing hsteps hclosing
  refine ⟨hsame, _, ⟨?_, hframed, hbegun, fun hclosing => ⟨if_pos hclosing, hsilent hclosing⟩, ?_, ?_, ?_,
    rfl⟩⟩
  · rw [hsame, List.append_nil]
  · rw [hspoken]
    split_ifs
    · exact List.nil_prefix
    · rw [hspeech]
  · intro hopen
    have hopen' : ¬ c.closing = true := by
      intro hclosing
      rw [Sends.closing hsteps hclosing] at hopen
      cases hopen
    rw [if_neg hopen', hspoken, hspeech]
  · split_ifs
    · rfl
    · rw [pongs, List.filterMap_cons, if_neg hopcode]
      rfl

theorem talks_of_closing (call : WsCall) (hclosing : c.closing = true) :
    Talks [] [call] [] c c := by
  refine ⟨(List.append_nil _).symm, Framed.refl _, Output.begins_nil rfl, fun h => ⟨rfl, h⟩, List.nil_prefix,
    ?_, rfl, rfl⟩
  intro hopen
  rw [hopen] at hclosing
  cases hclosing

theorem closing_of_shutdown (h : ¬ (!c.out.shutdown) = true) : c.closing = true := by
  rw [Bool.not_eq_true, Bool.not_eq_false'] at h
  rw [closing, Output.closing, Output.closed, h, Bool.or_true, Bool.true_or]

/-- A use of the WebSocket, on a connection that is not one of the Hixie protocol. -/
theorem wsCall_talks (call : WsCall) (hstate : c.state ≠ .handlingHixieWebSocket)
    (hplain : c.perMessageDeflate = false) :
    Ends (wsCall w call) c (fun _ c' => c' = { c with out := c'.out } ∧
      ∃ messages, Talks [] [call] messages c c') fun _ _ => False := by
  cases call with
  | sendText data =>
      rw [wsCall, sendText, ends_bind, ends_get, if_neg hstate, ends_ite]
      refine ⟨fun _ => sendHybi_talks rfl (by simp) hplain, fun hshut => ⟨rfl, [], ?_⟩⟩
      exact talks_of_closing _ (closing_of_shutdown hshut)
  | sendBinary data =>
      rw [wsCall, sendBinary, ends_bind, ends_get, if_pos hstate, ends_ite]
      refine ⟨fun _ => sendHybi_talks rfl (by simp) hplain, fun hshut => ⟨rfl, [], ?_⟩⟩
      exact talks_of_closing _ (closing_of_shutdown hshut)
  | close =>
      rw [wsCall, ends_liftOut]
      refine ((close_emitted c.out).and (Output.close_runs (w := w) c.out)).mono fun _ out h => ?_
      have hclosing : c.closing = true → out.closing = true := fun hclosing =>
        invariant_of_steps (fun o => o.closing = true) (fun _ _ h hstep => hstep.closing h) h.2 hclosing
      refine ⟨rfl, [], (List.append_nil _).symm, framed_nil_of_steps h.2 h.1, Output.begins_nil h.1,
        fun h => ⟨rfl, hclosing h⟩, List.prefix_rfl, fun _ => rfl, rfl, rfl⟩

theorem wsCalls_talks (uses : List WsCall) (hstate : c.state ≠ .handlingHixieWebSocket)
    (hplain : c.perMessageDeflate = false) :
    Ends (forM uses (wsCall w)) c (fun _ c' => c' = { c with out := c'.out } ∧
      ∃ messages, Talks [] uses messages c c') fun _ _ => False := by
  induction uses generalizing c with
  | nil => exact ⟨rfl, [], Talks.refl c⟩
  | cons call uses ih =>
      rw [List.forM_cons, ends_bind]
      refine (wsCall_talks call hstate hplain).mono ?_ fun _ _ => id
      rintro - c₁ ⟨hc₁, messages, h⟩
      have hstate₁ : c₁.state ≠ .handlingHixieWebSocket := by
        rw [hc₁]
        exact hstate
      have hplain₁ : c₁.perMessageDeflate = false := by
        rw [hc₁]
        exact hplain
      refine (ih hstate₁ hplain₁).mono ?_ fun _ _ => id
      rintro - c₂ ⟨hc₂, messages', h'⟩
      refine ⟨?_, messages ++ messages', h.trans h'⟩
      rw [hc₂, hc₁]

/-- A callback, with what the handler says in it. Of what has been taken before, the callback is still
due. -/
theorem callHandler_talks {c₁ : Connection} {call : Call} (calls : List Entry)
    (react : List Entry → List WsCall) (hcall : isFrame call = false) (hcalls : c₁.calls = c.calls ++ calls)
    (hout : c₁.out = c.out)
    (hpings : pings calls = [])
    (hdue : heard calls ++ (Call.passed call).toList = sentIn calls)
    (hstate : c₁.state ≠ .handlingHixieWebSocket) (hplain : c₁.perMessageDeflate = false) :
    Ends (callHandler w call react) c₁
      (fun _ c' => c' = { c₁ with out := c'.out, calls := c'.calls } ∧ ∃ messages,
        Talks (calls ++ [⟨call, c₁.out⟩]) (react (c₁.calls ++ [⟨call, c₁.out⟩])) messages c c')
      fun _ _ => False := by
  rw [callHandler, record, ends_bind, ends_modify, ends_bind, ends_get]
  have hrecorded : Talks (calls ++ [⟨call, c₁.out⟩]) [] [] c
      { c₁ with calls := c₁.calls ++ [⟨call, c₁.out⟩] } := by
    refine Talks.quiet ?_ ?_ ?_ ?_ ?_ ?_
    · rw [hcalls, List.append_assoc]
    · rw [hout]
      exact Framed.refl _
    · rw [hout]
    · rw [closing, closing, hout]
      exact id
    · rw [pings_append, hpings, pings_eq_nil (by simpa using hcall)]
      rfl
    · have hheard : heard [⟨call, c₁.out⟩] = (Call.passed call).toList := by
        rw [heard, List.filterMap_cons]
        cases Call.passed call <;> rfl
      have hsent : sentIn [⟨call, c₁.out⟩] = [] := by
        rw [sentIn, List.flatMap_singleton]
        exact sentOf_of_not_frame hcall
      rw [heard_append, hheard, hdue, sentIn_append, hsent, List.append_nil]
  refine (wsCalls_talks (react (c₁.calls ++ [⟨call, c₁.out⟩])) ?_ ?_).mono ?_ fun _ _ => id
  · exact hstate
  · exact hplain
  rintro - c' ⟨hc', messages, h⟩
  refine ⟨?_, messages, ?_⟩
  · rw [hc']
  · have hboth := hrecorded.trans h
    rwa [List.append_nil] at hboth

/-! ### A turn of the loop -/

/-- The state is the same, and since then the handler has been answered for. -/
structure Conversed (w : World) (c c' : Connection) : Prop where
  state : c'.state = c.state
  plain : c'.perMessageDeflate = c.perMessageDeflate
  handler : c'.webSocketHandler = c.webSocketHandler
  talk : ∃ calls messages, Talks calls (said w c.calls calls) messages c c'

theorem Conversed.refl (c : Connection) : Conversed w c c := ⟨rfl, rfl, rfl, [], [], Talks.refl c⟩

theorem Conversed.trans {c' c'' : Connection} (h : Conversed w c c') (h' : Conversed w c' c'') :
    Conversed w c c'' := by
  obtain ⟨hstate, hplain, hhandler, calls, messages, htalk⟩ := h
  obtain ⟨hstate', hplain', hhandler', calls', messages', htalk'⟩ := h'
  refine ⟨hstate'.trans hstate, hplain'.trans hplain, hhandler'.trans hhandler, calls ++ calls',
    messages ++ messages', ?_⟩
  rw [said_append, ← htalk.calls_eq]
  exact htalk.trans htalk'

/-- Nothing the relation is about has changed. -/
theorem Conversed.of_same {c' : Connection} (hstate : c'.state = c.state)
    (hplain : c'.perMessageDeflate = c.perMessageDeflate) (hhandler : c'.webSocketHandler = c.webSocketHandler)
    (hcalls : c'.calls = c.calls) (hout : c'.out = c.out) : Conversed w c c' :=
  ⟨hstate, hplain, hhandler, [], [], (Talks.refl c).same rfl rfl hcalls hout⟩

/-- Output without new bytes. -/
theorem Conversed.of_steps {c' : Connection} (hframe : c' = { c with out := c'.out })
    (hsteps : ReflTransGen (Output.OpStep w) c.out c'.out)
    (hsame : Output.emitted c'.out = Output.emitted c.out) : Conversed w c c' := by
  refine ⟨?_, ?_, ?_, [], [], Talks.quiet ?_ (framed_nil_of_steps hsteps hsame) hsame ?_ rfl
    rfl⟩
  · rw [hframe]
  · rw [hframe]
  · rw [hframe]
  · rw [hframe, List.append_nil]
  · exact fun hclosing => invariant_of_steps (fun o => o.closing = true)
      (fun _ _ h hstep => hstep.closing h) hsteps hclosing

theorem closeInternal_conversed (c : Connection) :
    Ends closeInternal c (fun _ c' => Conversed w c c') fun _ _ => False := by
  rw [closeInternal, ends_liftOut]
  refine ((Output.closeInternal_emitted c.out).and
    (Output.closeInternal_runs (w := w) c.out)).mono fun _ out h => ?_
  exact Conversed.of_steps rfl h.2 h.1

/-- The calls of a turn are logged, but the pongs they ask for are still owed, and the callback for the
message is due. -/
structure Owing (w : World) (owed : List Bytes) (due : List Message) (c c' : Connection) : Prop where
  state : c'.state = c.state
  plain : c'.perMessageDeflate = c.perMessageDeflate
  handler : c'.webSocketHandler = c.webSocketHandler
  out : c'.out = c.out
  taken : ∃ calls, c'.calls = c.calls ++ calls ∧ pings calls = owed ∧ sentIn calls = due ∧ heard calls = [] ∧
    said w c.calls calls = []

theorem Owing.conversed {c' : Connection} (h : Owing w [] [] c c') : Conversed w c c' := by
  obtain ⟨hstate, hplain, hhandler, hout, calls, hcalls, hpings, hsent, hheard, hsaid⟩ := h
  refine ⟨hstate, hplain, hhandler, calls, [], ?_⟩
  rw [hsaid]
  refine Talks.quiet hcalls ?_ ?_ ?_ hpings (hheard.trans hsent.symm)
  · rw [hout]
    exact Framed.refl _
  · rw [hout]
  · rw [closing, closing, hout]
    exact id

/-- The callback that is due. -/
theorem Owing.callback {c₁ : Connection} {call : Call} {message : Message} (react : List Entry → List WsCall)
    (h : Owing w [] [message] c c₁) (hpassed : Call.passed call = some message)
    (hreact : ∀ calls, react calls = reply w calls call) (hstate : c₁.state ≠ .handlingHixieWebSocket)
    (hplain : c₁.perMessageDeflate = false) :
    Ends (callHandler w call react) c₁ (fun _ c' => Conversed w c c') fun _ _ => False := by
  obtain ⟨hstate', hplain', hhandler', hout, calls, hcalls, hpings, hsent, hheard, hsaid⟩ := h
  have hcall : isFrame call = false := by cases call <;> first | rfl | cases hpassed
  have hdue : heard calls ++ (Call.passed call).toList = sentIn calls := by
    rw [hheard, hpassed, hsent]
    rfl
  refine (callHandler_talks calls react hcall hcalls hout hpings hdue hstate hplain).mono ?_ fun _ _ => id
  rintro - c' ⟨hframe, messages, h⟩
  refine ⟨by rw [hframe]; exact hstate', by rw [hframe]; exact hplain', by rw [hframe]; exact hhandler',
    calls ++ [⟨call, c₁.out⟩], messages, ?_⟩
  rw [said_append, hsaid, said, said, List.append_nil, List.nil_append, ← hcalls, ← hreact]
  exact h

/-- The pong that is owed. -/
theorem Owing.pong {c₁ c' : Connection} {payload : Bytes}
    (h : Owing w (if c₁.closing then [] else [payload]) [] c c₁) (hframe : c' = { c₁ with out := c'.out })
    (hframed : Framed (if c₁.closing then [] else [⟨.pong, payload⟩]) c₁.out c'.out)
    (hbegun : Output.Begins (wire (if c₁.closing then [] else [⟨.pong, payload⟩])) c₁.out c'.out)
    (hclosing : c₁.closing = true → c'.closing = true) : Conversed w c c' := by
  obtain ⟨hstate, hplain, hhandler, hout, calls, hcalls, hpings, hsent, hheard, hsaid⟩ := h
  have hspeech : speech (if c₁.closing then [] else [⟨.pong, payload⟩]) = [] := by split_ifs <;> rfl
  have hsame : c₁.closing = c.closing := by rw [closing, closing, hout]
  refine ⟨?_, ?_, ?_, calls, if c₁.closing then [] else [⟨.pong, payload⟩], ?_⟩
  · rw [hframe]
    exact hstate
  · rw [hframe]
    exact hplain
  · rw [hframe]
    exact hhandler
  rw [hsaid]
  refine ⟨?_, ?_, ?_, fun h => ?_, ?_, fun _ => hspeech, ?_, hheard.trans hsent.symm⟩
  · rw [hframe]
    exact hcalls
  · rw [← hout]
    exact hframed
  · rw [← hout]
    exact hbegun
  · rw [hsame, if_pos h]
    exact ⟨rfl, hclosing (hsame.trans h)⟩
  · rw [hspeech]
    exact List.nil_prefix
  · rw [hpings]
    split_ifs <;> rfl

theorem dispatchMessage_conversed {c₁ : Connection} {messageState : MessageState} (payload : Bytes)
    (hstate : c.state ≠ .handlingHixieWebSocket) (hplain : c.perMessageDeflate = false)
    (hhandler : c.webSocketHandler ≠ none)
    (h : Owing w (owedFor messageState payload c₁) (dueFor messageState payload) c c₁) :
    Ends (dispatchMessage w messageState payload) c₁ (fun _ c' => Conversed w c c') fun _ _ => False := by
  have hstate₁ : c₁.state ≠ .handlingHixieWebSocket := h.state.trans_ne hstate
  have hplain₁ := h.plain.trans hplain
  have hhandler₁ : c₁.webSocketHandler ≠ none := h.handler.trans_ne hhandler
  cases messageState with
  | noMessage | pong => exact h.conversed
  | textMessage =>
      rw [dispatchMessage, ends_bind, handleWebSocketTextMessage, ends_bind, ends_get]
      cases hsome : c₁.webSocketHandler with
      | none => exact absurd hsome hhandler₁
      | some handler => exact h.callback _ rfl (fun _ => rfl) hstate₁ hplain₁
  | binaryMessage =>
      rw [dispatchMessage, ends_bind, handleWebSocketBinaryMessage, ends_bind, ends_get]
      cases hsome : c₁.webSocketHandler with
      | none => exact absurd hsome hhandler₁
      | some handler => exact h.callback _ rfl (fun _ => rfl) hstate₁ hplain₁
  | error | close =>
      rw [dispatchMessage, ends_bind]
      exact (closeInternal_conversed c₁).mono (fun _ _ => h.conversed.trans) fun _ _ => id
  | ping =>
      rw [dispatchMessage, ends_bind]
      refine ((sendHybi_framed .pong payload hplain₁).and (sendHybi_sends .pong payload c₁)).mono
        (fun _ c' hc' => ?_) fun _ _ h => h.1
      exact h.pong hc'.1.1 hc'.1.2.1 hc'.1.2.2 (Sends.closing hc'.2)

/-- The rest of a turn, once the frame is taken. -/
theorem turn_conversed {c₁ : Connection} {decoded : Decoded} {f : Option Bool → ConnM (Option Nat)}
    (hstate : c.state ≠ .handlingHixieWebSocket) (hplain : c.perMessageDeflate = false)
    (hhandler : c.webSocketHandler ≠ none)
    (h : Owing w (if decoded.deflateNeeded then [] else owedFor decoded.messageState decoded.messageOut c₁)
      (if decoded.deflateNeeded then [] else dueFor decoded.messageState decoded.messageOut) c c₁)
    (hf : ∀ goOn c', Conversed w c c' → Ends (f goOn) c' (fun _ c'' => Conversed w c c'') Faulted) :
    Ends (do
      match ← inflateMessage w decoded with
      | none => return none
      | some message => f (← dispatchMessage w decoded.messageState message)) c₁
      (fun _ c' => Conversed w c c') Faulted := by
  rw [ends_bind, inflateMessage, ends_ite]
  refine ⟨fun hneeded => ?_, fun hnot => ?_⟩
  · rw [if_pos hneeded, if_pos hneeded] at h
    rw [ends_bind, ends_get, if_neg (by simp [h.plain.trans hplain]), ends_bind]
    exact (closeInternal_conversed c₁).mono (fun _ _ => h.conversed.trans) fun _ _ => False.elim
  · rw [if_neg hnot, if_neg hnot] at h
    rw [ends_pure]
    dsimp only
    rw [ends_bind]
    exact (dispatchMessage_conversed _ hstate hplain hhandler h).mono hf fun _ _ => False.elim

theorem hybiLoop_conversed (inBuf : Bytes) (fuel messageStart : Nat)
    (hstate : c.state ≠ .handlingHixieWebSocket) (hplain : c.perMessageDeflate = false)
    (hhandler : c.webSocketHandler ≠ none) :
    Ends (hybiLoop w inBuf fuel messageStart) c (fun _ c' => Conversed w c c') Faulted := by
  induction fuel generalizing messageStart c with
  | zero => exact Conversed.refl c
  | succ fuel ih =>
      rw [hybiLoop]
      cases hdecode : decodeNextMessage inBuf messageStart [] false with
      | error f => exact ends_fault.mpr ⟨f, rfl⟩
      | ok decoded =>
          have next : ∀ goOn c', Conversed w c c' →
              Ends (hybiNextTurn w inBuf fuel decoded.messageStart goOn) c'
                (fun _ c'' => Conversed w c c'') Faulted := by
            intro goOn c' hc'
            rcases goOn with - | - | -
            · exact hc'
            · exact hc'
            · have hstate' : c'.state ≠ .handlingHixieWebSocket := hc'.state.trans_ne hstate
              have hhandler' : c'.webSocketHandler ≠ none := hc'.handler.trans_ne hhandler
              exact (ih _ hstate' (hc'.plain.trans hplain) hhandler').mono (fun _ _ => hc'.trans) fun _ _ => id
          have untaken : Owing w [] [] c c :=
            ⟨rfl, rfl, rfl, rfl, [], (List.append_nil _).symm, rfl, rfl, rfl, rfl⟩
          dsimp only
          rw [ends_ite]
          rcases decodeNextMessage_ok hdecode with ⟨-, rfl⟩ | ⟨-, hnone, -, hstay⟩ | ⟨f, size, hscan, rfl⟩
          · refine ⟨fun hmoved => absurd hmoved (Nat.lt_irrefl _), fun _ => ?_⟩
            exact turn_conversed hstate hplain hhandler untaken next
          · rw [hstay]
            refine ⟨fun hmoved => absurd hmoved (Nat.lt_irrefl _), fun _ => ?_⟩
            refine turn_conversed hstate hplain hhandler ?_ (hstay ▸ next)
            have howed : owedFor decoded.messageState decoded.messageOut c = [] := by
              rw [owedFor, hnone]
              rfl
            have hdue : dueFor decoded.messageState decoded.messageOut = [] := by
              simp only [hnone, dueFor]
            rw [howed, hdue, ite_self, ite_self]
            exact untaken
          · have hsize := scan_size hscan
            refine ⟨fun _ => ?_, fun hnot => absurd (by dsimp only; omega) hnot⟩
            have htaken : (inBuf.take (messageStart + size)).drop messageStart =
                (inBuf.drop messageStart).take size := by
              rw [List.drop_take, Nat.add_sub_cancel_left]
            dsimp only
            rw [htaken, record, ends_bind, ends_modify]
            refine turn_conversed hstate hplain hhandler ?_ next
            refine ⟨rfl, rfl, rfl, rfl, [⟨.frame ((inBuf.drop messageStart).take size), c.out⟩], rfl, ?_, ?_,
              rfl, ?_⟩
            · exact pings_frame hscan c
            · exact sentIn_frame hscan c.out
            · exact said_eq_nil _ (by simp [Call.callee])

theorem handleHybiWebSocket_conversed (hstate : c.state = .handlingHybiWebSocket)
    (hplain : c.perMessageDeflate = false) (hhandler : c.webSocketHandler ≠ none) :
    Ends (handleHybiWebSocket w) c (fun _ c' => Conversed w c c') Faulted := by
  rw [handleHybiWebSocket, ends_bind, ends_get, ends_ite]
  refine ⟨fun _ => ?_, fun _ => Conversed.refl c⟩
  rw [ends_bind]
  refine (hybiLoop_conversed _ _ _ (by simp [hstate]) hplain hhandler).mono ?_ fun _ _ => id
  rintro (- | numBytesDecoded) c' hc'
  · exact hc'
  · dsimp only
    rw [ends_bind, ends_modify, closeIfTooLong, ends_bind, ends_get, ends_ite]
    have hdropped : Conversed w c { c' with inBuf := c'.inBuf.drop numBytesDecoded } :=
      hc'.trans (Conversed.of_same rfl rfl rfl rfl rfl)
    refine ⟨fun _ => ?_, fun _ => hdropped⟩
    exact (closeInternal_conversed _).mono (fun _ _ => hdropped.trans) fun _ _ => False.elim

/-! ### Handshakes -/

/-- The response to the handshake of a request is between these. -/
structure Opening (w : World) (request : PageRequest) (handler : HandlerId) (base out : Output) : Prop where
  asks : AsksForHybi request
  registered : w.getWebSocketHandler request.requestUri = some handler
  noError : base.hadSendError = false
  closing : base.closing = true → out.closing = true
  emits : ∃ log, Output.Emits (renderLines (Output.hybiLines w request (some handler)
    (request.getHeader (ascii "Sec-WebSocket-Key")) false (w.now log)) ++ crlf) base out

/-- The handshake of the last request has been answered. -/
def Opened (w : World) (handler : HandlerId) (c : Connection) : Prop :=
  ∃ (before : List Entry) (request : PageRequest) (base : Output),
    c.calls = before ++ [⟨.handle request, base⟩] ∧ Opening w request handler base c.out

/-- What has been said since the handler was connected. -/
def Joined (w : World) (c : Connection) : Prop :=
  ∃ (c₀ : Connection) (handler : HandlerId) (calls : List Entry) (messages : List Message),
    c.webSocketHandler ≠ none ∧ c₀.out.hadSendError = false ∧ Opened w handler c₀ ∧
      Talks (⟨.onConnect handler, c₀.out⟩ :: calls)
        (said w c₀.calls (⟨.onConnect handler, c₀.out⟩ :: calls)) messages c₀ c

theorem Joined.conversed {c' : Connection} (h : Joined w c) (h' : Conversed w c c') : Joined w c' := by
  obtain ⟨c₀, handler, calls, messages, hhandler, hnoError, hopened, htalk⟩ := h
  obtain ⟨-, -, hsame, calls', messages', htalk'⟩ := h'
  refine ⟨c₀, handler, calls ++ calls', messages ++ messages', hsame.trans_ne hhandler, hnoError, hopened, ?_⟩
  rw [← List.cons_append, said_append, ← htalk.calls_eq]
  exact htalk.trans htalk'

/-- A connection gets to the state of the Hybi protocol in one way only. -/
def Enters (w : World) (c : Connection) : Prop :=
  c.state = .handlingHybiWebSocket → c.perMessageDeflate = false → Joined w c

theorem Unframed.enters (h : Unframed c) : Enters w c := fun hstate => absurd hstate h.state

theorem Enters.same {c' : Connection} (h : Enters w c) (hstate : c'.state = c.state)
    (hplain : c'.perMessageDeflate = c.perMessageDeflate) (hhandler : c'.webSocketHandler = c.webSocketHandler)
    (hcalls : c'.calls = c.calls) (hout : c'.out = c.out) : Enters w c' := fun hstate' hplain' =>
  (h (hstate.symm.trans hstate') (hplain.symm.trans hplain')).conversed
    (Conversed.of_same hstate hplain hhandler hcalls hout)

theorem enters_of_writes {α : Type} {m : ConnM α} (hc : Unframed c)
    (hwrites : Steps (WriteStep w) Thrown m c) : Holds (Enters w) m c :=
  (unframed_of_writes hc hwrites).mono fun _ => Unframed.enters

/-- The handler is connected behind the response to the handshake. -/
theorem onConnect_joined {handler : HandlerId} (hstate : c.state = .readingHeaders)
    (hplain : c.perMessageDeflate = false) (hhandler : c.webSocketHandler = some handler)
    (hnoError : c.out.hadSendError = false) (hopened : Opened w handler c) :
    Ends (onConnect w handler) c (fun _ c' => Joined w c') fun _ _ => False := by
  have hreply : ∀ calls, w.onConnect calls handler = reply w calls (.onConnect handler) := fun _ => rfl
  refine (callHandler_talks [] _ rfl (List.append_nil _).symm rfl rfl rfl ?_ hplain).mono ?_ fun _ _ => id
  · rw [hstate]
    decide
  rintro - c₁ ⟨hframe, messages, h⟩
  refine ⟨c, handler, [], messages, ?_, hnoError, hopened, ?_⟩
  · rw [hframe]
    simp [hhandler]
  · rw [said, said, List.append_nil, ← hreply]
    exact h

theorem handleHybiHandshake_enters {version : Int} {request : PageRequest} {handler : HandlerId}
    (hc : Unframed c) (hhandled : JustHandled request c) (hhandler : c.webSocketHandler = some handler)
    (hregistered : w.getWebSocketHandler request.requestUri = some handler)
    (hversion : webSocketVersion request = .ok version) :
    Holds (Enters w)
      (handleHybiHandshake w version (request.getHeader (ascii "Sec-WebSocket-Key"))) c := by
  obtain ⟨hstate, hrequest, before, hcalls⟩ := hhandled
  rw [Holds, handleHybiHandshake, ends_ite]
  refine ⟨fun _ => enters_of_writes hc (sendError_writes _ _ _), fun hsupported => ?_⟩
  have hasks : AsksForHybi request := by
    rw [AsksForHybi, hversion]
    by_cases height : version = 8
    · exact Or.inl (congrArg Except.ok height)
    · exact Or.inr (congrArg Except.ok (by omega))
  rw [ends_bind, theRequest, ends_bind, ends_get, hrequest, ends_pure, ends_bind, ends_get, ends_bind,
    ends_liftOut, hhandler]
  refine ((Output.hybiHandshake_runs (w := w) _ _ _ _ c.out).and
    (Output.hybiHandshake_emits (w := w) (o := c.out) _ _ _ _)).mono fun _ base hbase => ?_
  obtain ⟨hbuffers, log, hemits⟩ := hbase
  have hsteps : ReflTransGen (Output.OpStep w) c.out base :=
    ReflTransGen.mono (fun _ _ => Output.BufferStep.op) _ _ hbuffers
  have hnoError := noError_of_opSteps hsteps hc.noError
  have hclosing : c.out.closing = true → base.closing = true := fun hclosing =>
    invariant_of_steps (fun o => o.closing = true) (fun _ _ h hstep => hstep.closing h) hsteps hclosing
  dsimp only
  rw [ends_bind]
  cases hplain : c.perMessageDeflate with
  | true =>
      refine (callHandler_ends _ _ _).mono (fun _ c₁ hsends => ?_) fun _ _ => False.elim
      obtain ⟨out, calls, rfl, -⟩ := hsends.frame
      simp only [setState, ends_bind, ends_modify, ends_pure]
      intro _ hplain'
      cases hplain'
  | false =>
      rw [hplain] at hemits
      refine (onConnect_joined ?_ ?_ ?_ ?_ ?_).mono ?_ fun _ _ => False.elim
      · exact hstate
      · rfl
      · rfl
      · exact hnoError
      · exact ⟨before, request, c.out, hcalls, hasks, hregistered, hc.noError, hclosing, log, hemits⟩
      rintro - c₁ ⟨c₀, handler', calls, messages, hhandler₁, hnoError₀, hopened, h⟩
      simp only [setState, ends_bind, ends_modify, ends_pure]
      exact fun _ _ => ⟨c₀, handler', calls, messages, hhandler₁, hnoError₀, hopened, h.same rfl rfl rfl rfl⟩

theorem handleUpgrade_enters {request : PageRequest} (hc : Unframed c) (hhandled : JustHandled request c) :
    Holds (Enters w) (handleUpgrade w request) c := by
  have hunframed : Unframed { c with webSocketHandler := w.getWebSocketHandler request.requestUri } :=
    ⟨hc.state, hc.noError, hc.noFrame⟩
  rw [Holds, handleUpgrade, ends_bind, ends_modify]
  cases hversion : stoi (request.getHeader (ascii "Sec-WebSocket-Version")) with
  | error e => exact enters_of_writes hunframed (sendError_writes _ _ _)
  | ok version =>
      dsimp only
      rw [ends_ite, ends_ite]
      refine ⟨fun _ => enters_of_writes hunframed (send404_writes _), fun hsome => ⟨fun _ => ?_, fun _ => ?_⟩⟩
      · simp only [setState, ends_bind, ends_modify, ends_pure]
        rintro ⟨⟩
      · obtain ⟨handler, hhandler⟩ := Option.ne_none_iff_exists'.mp (mt Option.isNone_iff_eq_none.mpr hsome)
        exact handleHybiHandshake_enters hunframed hhandled hhandler hhandler hversion

theorem handlePageRequest_enters (hc : Unframed c) (hstate : c.state = .readingHeaders) :
    Holds (Enters w) (handlePageRequest w) c := by
  rw [Holds, handlePageRequest, ends_bind, theRequest, ends_bind, ends_get]
  cases hrequest : c.request with
  | none => exact ends_fault.mpr (Or.inr ⟨_, rfl⟩)
  | some request =>
      rw [ends_pure, ends_bind, ends_get]
      dsimp only
      rw [record, ends_bind, ends_modify]
      have hunframed : Unframed { c with calls := c.calls ++ [⟨.handle request, c.out⟩] } := hc.record rfl
      have hhandled : JustHandled request { c with calls := c.calls ++ [⟨.handle request, c.out⟩] } :=
        ⟨hstate, hrequest, c.calls, rfl⟩
      cases w.handle c.calls request with
      | throws | throwsUnknown => exact enters_of_writes hunframed (sendError_writes _ _ _)
      | response response =>
          dsimp only [sendResponse]
          rw [handleResponse, ends_bind, ends_get, ends_ite]
          refine ⟨fun _ => ends_fault.mpr (Or.inr ⟨_, rfl⟩), fun _ => ?_⟩
          rw [ends_bind, ends_modify]
          refine enters_of_writes ⟨by simp, hc.noError, hunframed.noFrame⟩ ?_
          exact (Steps.forM writerCall_writes _).bind fun _ _ _ => Steps.pure _
      | unhandled =>
          dsimp only
          rw [ends_ite]
          refine ⟨fun _ => handleUpgrade_enters hunframed hhandled, fun _ => ?_⟩
          exact (sendStaticData_unframed hunframed).mono fun _ => Unframed.enters

theorem processRequest_enters (verb : Verb) (requestUri : Bytes) (headers : HeaderMap) (hc : Unframed c)
    (hstate : c.state = .readingHeaders) :
    Holds (Enters w) (processRequest w verb requestUri headers) c := by
  have hunframed : Unframed { c with request := some (PageRequest.create requestUri verb headers) } :=
    ⟨hc.state, hc.noError, hc.noFrame⟩
  unfold Holds processRequest
  rw [ends_bind, ends_modify]
  split
  · exact enters_of_writes hunframed (sendData_writes _ _ _)
  · exact enters_of_writes hunframed (buffers_writes (Output.bufferContentHeaders_runs _ _) _)
  · rw [ends_ite, ends_ite]
    refine ⟨fun _ => enters_of_writes hunframed (sendError_writes _ _ _),
      fun _ => ⟨fun _ => handlePageRequest_enters hunframed hstate, fun _ => ?_⟩⟩
    simp only [setState, ends_bind, ends_modify, ends_pure]
    rintro ⟨⟩

theorem processParsed_enters (verb : Verb) (requestUri : Bytes) (headers : HeaderMap) (hc : Unframed c)
    (hstate : c.state = .readingHeaders) :
    Holds (Enters w) (processParsed w verb requestUri headers) c := by
  rw [Holds, processParsed, ends_ite, ends_ite]
  refine ⟨fun _ => ⟨fun _ => enters_of_writes hc (sendError_writes _ _ _), fun _ => ?_⟩,
    fun _ => processRequest_enters _ _ _ hc hstate⟩
  have hunframed : Unframed { c with webSocketHandler := w.getWebSocketHandler requestUri } :=
    ⟨hc.state, hc.noError, hc.noFrame⟩
  rw [ends_bind, ends_modify, ends_ite]
  refine ⟨fun _ => enters_of_writes hunframed (send404_writes _), fun _ => ?_⟩
  split_ifs
  · rw [ends_bind]
    have hinitialised : ∀ c₁ : Connection, Unframed c₁ → c₁.state = .readingHeaders →
        Ends (parsePerMessageDeflateHeader (headers.get (ascii "Sec-WebSocket-Extensions"))) c₁
          (fun _ c₂ => Unframed c₂ ∧ c₂.state = .readingHeaders) fun _ _ => False := by
      intro c₁ hc₁ hstate₁
      refine ends_forM ?_ ⟨hc₁, hstate₁⟩
      rintro extField - c₂ ⟨hc₂, hstate₂⟩
      rw [ends_ite]
      refine ⟨fun _ => ?_, fun _ => ⟨hc₂, hstate₂⟩⟩
      rw [ends_bind, ends_modify]
      have hflagged : Unframed { c₂ with perMessageDeflate := true } := ⟨hc₂.state, hc₂.noError, hc₂.noFrame⟩
      exact ⟨hflagged.record rfl, hstate₂⟩
    refine (hinitialised _ hunframed hstate).mono (fun _ c₂ hc₂ => ?_) fun _ _ => False.elim
    exact processRequest_enters _ _ _ hc₂.1 hc₂.2
  · exact processRequest_enters _ _ _ hunframed hstate

theorem processHeaders_enters (last : Nat) (hc : Unframed c) (hstate : c.state = .readingHeaders) :
    Holds (Enters w) (processHeaders w last) c := by
  have hunframed : ∀ inBuf, Unframed { c with inBuf := inBuf } := fun _ => ⟨hc.state, hc.noError, hc.noFrame⟩
  rw [Holds, processHeaders, ends_bind, ends_get]
  cases RequestParser.block.run (c.inBuf.take last) with
  | error stop memory =>
      cases stop with
      | fault f => exact ends_fault.mpr (Or.inr ⟨f, rfl⟩)
      | reject responseCode reason =>
          dsimp only
          rw [ends_bind, ends_set]
          exact enters_of_writes (hunframed _) (sendError_writes _ _ _)
  | ok parsed memory =>
      dsimp only
      rw [ends_bind, ends_set]
      exact processParsed_enters _ _ _ (hunframed _) hstate

/-! ### Events -/

/-- Whatever happens to a Hybi connection, only what has been said since matters. -/
theorem Enters.after {c' : Connection} (h : Enters w c) (h' : Conversed w c c') : Enters w c' :=
  fun hstate hplain =>
    (h (h'.state.symm.trans hstate) (h'.plain.symm.trans hplain)).conversed h'

theorem closeInternal_enters (h : Enters w c) :
    Ends closeInternal c (fun _ c' => Enters w c') fun _ _ => False :=
  (closeInternal_conversed c).mono (fun _ _ => h.after) fun _ _ => id

theorem handleHeaders_enters (hc : Unframed c) (hstate : c.state = .readingHeaders) :
    Holds (Enters w) (handleHeaders w) c := by
  rw [Holds, handleHeaders, ends_bind, ends_get]
  cases find (crlf ++ crlf) c.inBuf with
  | none =>
      dsimp only
      rw [ends_ite, ends_bind]
      exact ⟨fun _ => enters_of_writes hc (sendError_writes _ _ _), fun _ => hc.enters⟩
  | some i =>
      dsimp only
      rw [record, ends_bind, ends_modify]
      refine (processHeaders_enters _ (hc.record rfl) hstate).bind (fun _ => id) fun accepted c' hc' => ?_
      rw [Holds, ends_ite]
      refine ⟨fun _ => ?_, fun _ => ?_⟩
      · simp only [ends_bind, ends_modify, ends_pure]
        exact hc'.same rfl rfl rfl rfl rfl
      · rw [ends_bind]
        exact (closeInternal_enters hc').mono (fun _ _ => id) fun _ _ => False.elim

theorem handleBufferingPostData_enters (hc : Unframed c) :
    Holds (Enters w) (handleBufferingPostData w) c := by
  rw [Holds, handleBufferingPostData, ends_bind, ends_get, ends_bind, theRequest, ends_bind, ends_get]
  cases c.request with
  | none => exact ends_fault.mpr (Or.inr ⟨_, rfl⟩)
  | some request =>
      rw [ends_pure]
      cases request.consumeContent c.inBuf with
      | none => exact hc.enters
      | some consumed =>
          obtain ⟨request', inBuf⟩ := consumed
          dsimp only
          rw [record, ends_bind, ends_modify, ends_bind, ends_modify]
          have hunframed : Unframed { c with calls := c.calls ++ [⟨.content request'.content, c.out⟩] } :=
            hc.record rfl
          have hpage : ∀ c₁ : Connection, Unframed c₁ → c₁.state = .readingHeaders →
              Holds (Enters w) (do
                if !(← handlePageRequest w) then
                  closeInternal) c₁ := by
            intro c₁ hc₁ hstate₁
            refine (handlePageRequest_enters hc₁ hstate₁).bind (fun _ => id) fun accepted c' hc' => ?_
            rw [Holds, ends_ite]
            refine ⟨fun _ => ?_, fun _ => hc'⟩
            exact (closeInternal_enters hc').mono (fun _ _ => id) fun _ _ => False.elim
          exact hpage _ ⟨by simp, hunframed.noError, hunframed.noFrame⟩ rfl

/-- In the other WebSocket protocol a connection stays where it is. -/
theorem enters_of_hixie {α : Type} {m : ConnM α} (htakes : Steps (Take w) Thrown m c)
    (hstate : c.state = .handlingHixieWebSocket) : Holds (Enters w) m c := by
  have taken : ∀ {c'}, ReflTransGen (Take w) c c' → c'.state = .handlingHixieWebSocket := fun hsteps =>
    invariant_of_steps (fun c₁ => c₁.state = .handlingHixieWebSocket)
      (fun _ _ h hstep => (hstep.1.webSocket (Or.inl h)).trans h) hsteps hstate
  have enters : ∀ {c' : Connection}, c'.state = .handlingHixieWebSocket → Enters w c' :=
    fun hstate' hhybi => by
      rw [hstate'] at hhybi
      cases hhybi
  refine Ends.mono htakes (fun _ c' hsteps => enters (taken hsteps)) ?_
  rintro e c' ⟨c₁, hsteps, hlast⟩
  cases hlast with
  | fault f => exact Or.inr ⟨f, rfl⟩
  | range e path hstate₁ hrequest hcalls hrange =>
      rw [taken hsteps] at hstate₁
      cases hstate₁

theorem handleWebSocketKey3_enters (hc : Unframed c) : Holds (Enters w) (handleWebSocketKey3 w) c := by
  rw [Holds, handleWebSocketKey3, ends_bind, ends_get, ends_ite]
  refine ⟨fun _ => ?_, fun _ => hc.enters⟩
  rw [ends_bind, theRequest, ends_bind, ends_get]
  cases c.request with
  | none => exact ends_fault.mpr (Or.inr ⟨_, rfl⟩)
  | some request =>
      rw [ends_pure]
      dsimp only
      rw [record, ends_bind, ends_modify, ends_bind, ends_liftOut]
      refine After.of_forall fun _ out => ?_
      rw [startHixie, ends_bind, ends_modify, ends_bind, ends_get]
      dsimp only
      cases c.webSocketHandler with
      | none => rintro ⟨⟩
      | some handler =>
          refine (callHandler_ends _ _ _).mono (fun _ c' hsends => ?_) fun _ _ => False.elim
          obtain ⟨out', calls, rfl, -⟩ := hsends.frame
          rintro ⟨⟩

theorem enters_of_deflate {α : Type} {m : ConnM α} (htakes : Steps (Take w) Thrown m c)
    (hdeflate : c.perMessageDeflate = true) : Holds (Enters w) m c := by
  have took : ∀ {c'}, ReflTransGen (Take w) c c' → c'.perMessageDeflate = true := fun hsteps =>
    invariant_of_steps (fun c₁ => c₁.perMessageDeflate = true) (fun _ _ h hstep => hstep.1.deflate h)
      hsteps hdeflate
  have enters : ∀ {c' : Connection}, c'.perMessageDeflate = true → Enters w c' :=
    fun hdeflate' _ hplain => by
      rw [hdeflate'] at hplain
      cases hplain
  refine Ends.mono htakes (fun _ c' hsteps => enters (took hsteps)) ?_
  rintro e c' ⟨c₁, hsteps, hlast⟩
  cases hlast with
  | fault f => exact Or.inr ⟨f, rfl⟩
  | range e path hstate hrequest hcalls hrange =>
      have hdeflate₁ := took hsteps
      exact Or.inl (enters hdeflate₁)

/-- What is known of a connection between two steps of a read. -/
structure Known (w : World) (c : Connection) : Prop where
  tracked : Tracked c
  enters : Enters w c

theorem Known.unframed (h : Known w c) (hplain : c.perMessageDeflate = false)
    (hstate : c.state ≠ .handlingHybiWebSocket) : Unframed c := h.tracked.unframed hplain hstate

theorem handleNewDataFrom_enters (fuel : Nat) (h : Known w c) :
    Holds (Enters w) (handleNewDataFrom w fuel) c := by
  induction fuel generalizing c with
  | zero => exact h.enters
  | succ fuel ih =>
      cases hplain : c.perMessageDeflate with
      | true => exact enters_of_deflate (handleNewDataFrom_takes _ _) hplain
      | false =>
          rw [Holds, handleNewDataFrom, ends_bind, ends_get]
          cases hstate : c.state with
          | readingHeaders =>
              have hunframed := h.unframed hplain (by simp [hstate])
              dsimp only
              rw [ends_bind]
              refine ((handleHeaders_enters hunframed hstate).and
                (handleHeaders_tracked hunframed hstate)).mono (fun goOn c' hc' => ?_) fun _ _ h => h.1
              rw [ends_ite]
              exact ⟨fun _ => ih ⟨hc'.2, hc'.1⟩, fun _ => hc'.1⟩
          | readingWebSocketKey3 => exact handleWebSocketKey3_enters (h.unframed hplain (by simp [hstate]))
          | handlingHixieWebSocket => exact enters_of_hixie (handleHixieWebSocket_takes hstate) hstate
          | handlingHybiWebSocket =>
              obtain ⟨c₀, handler, calls, messages, hhandler, -⟩ := h.enters hstate hplain
              exact (handleHybiWebSocket_conversed hstate hplain hhandler).mono (fun _ _ => h.enters.after)
                fun _ _ => Or.inr
          | bufferingPostData => exact handleBufferingPostData_enters (h.unframed hplain (by simp [hstate]))
          | awaitingResponseBegin | sendingResponseHeaders | sendingResponseBody => exact h.enters
          | invalid => exact ends_fault.mpr (Or.inr ⟨_, rfl⟩)

theorem handleDataReadyForRead_enters (result : ReadResult) (h : Tracked c)
    (hstate : c.state ≠ .handlingHybiWebSocket) : Holds (Enters w) (handleDataReadyForRead w result) c := by
  have hknown : ∀ c₁ : Connection, c₁.perMessageDeflate = c.perMessageDeflate → c₁.out = c.out →
      c₁.calls = c.calls → c₁.state = c.state → Known w c₁ := fun c₁ hplain hout hcalls hsame =>
    ⟨h.same hplain hout hcalls hsame, fun hhybi => absurd (hsame.symm.trans hhybi) hstate⟩
  rw [Holds, handleDataReadyForRead, ends_bind, ends_get, ends_ite]
  refine ⟨fun _ => ?_, fun _ hhybi => absurd hhybi hstate⟩
  cases result with
  | error =>
      have henlarged := fun c₁ hplain hout hcalls hsame => (hknown c₁ hplain hout hcalls hsame).enters
      exact henlarged _ rfl rfl rfl rfl
  | endOfStream =>
      dsimp only
      rw [ends_bind, ends_set]
      have hclose := fun c₁ hplain hout hcalls hsame =>
        closeInternal_enters (hknown c₁ hplain hout hcalls hsame).enters
      exact (hclose _ (by rfl) (by rfl) (by rfl) (by rfl)).mono (fun _ _ => id) fun _ _ => False.elim
  | data received =>
      dsimp only
      rw [ends_bind, ends_set, handleNewData, ends_bind, ends_get]
      exact handleNewDataFrom_enters _ (hknown _ rfl rfl rfl rfl)

/-- What happens to a connection by itself, between its construction and its destruction. -/
def isOwn : Event → Bool
  | .readable _ | .writable | .writer _ => true
  | .socket _ | .destroy => false

/-- What an event makes of a connection that has not been upgraded. -/
theorem step_enters {event : Event} (hevent : isOwn event = true) (h : Tracked c)
    (hstate : c.state ≠ .handlingHybiWebSocket) : Holds (Enters w) (step w event) c := by
  rw [Holds, step, ends_bind, ends_get]
  cases event with
  | destroy | socket call => cases hevent
  | readable result =>
      dsimp only
      rw [ends_ite]
      exact ⟨fun _ => handleDataReadyForRead_enters result h hstate,
        fun _ => ends_fault.mpr (Or.inr ⟨_, rfl⟩)⟩
  | writable =>
      dsimp only
      rw [ends_ite]
      refine ⟨fun _ => ?_, fun _ => ends_fault.mpr (Or.inr ⟨_, rfl⟩)⟩
      rw [ends_liftOut]
      exact After.of_forall fun _ _ hhybi => absurd hhybi hstate
  | writer call =>
      dsimp only
      rw [ends_ite, ends_ite]
      refine ⟨fun _ => ⟨fun _ => ?_, fun _ => ends_fault.mpr (Or.inr ⟨_, rfl⟩)⟩,
        fun _ hhybi => absurd hhybi hstate⟩
      cases hplain : c.perMessageDeflate with
      | true =>
          have hserves := serves_of_answers (answers_of_writes (writerCall_writes (w := w) call c))
          exact enters_of_deflate (hserves.mono fun _ _ => Take.serve) hplain
      | false => exact enters_of_writes (h.unframed hplain hstate) (writerCall_writes call c)

/-- What an event makes of a connection that has been upgraded. -/
theorem step_conversed {event : Event} (hevent : isOwn event = true)
    (hstate : c.state = .handlingHybiWebSocket) (hplain : c.perMessageDeflate = false)
    (hhandler : c.webSocketHandler ≠ none) :
    Ends (step w event) c (fun _ c' => Conversed w c c') Faulted := by
  rw [step, ends_bind, ends_get]
  cases event with
  | destroy | socket call => cases hevent
  | writable =>
      dsimp only
      rw [ends_ite]
      refine ⟨fun _ => ?_, fun _ => ends_fault.mpr ⟨_, rfl⟩⟩
      rw [ends_liftOut]
      refine (Output.handleDataReadyForWrite_emitted.and
        (Output.handleDataReadyForWrite_runs (w := w) c.out)).mono fun _ out hout => ?_
      exact Conversed.of_steps rfl hout.2 hout.1
  | writer call =>
      dsimp only
      rw [ends_ite, ends_ite]
      refine ⟨fun _ => ⟨fun _ => ?_, fun _ => ends_fault.mpr ⟨_, rfl⟩⟩, fun _ => Conversed.refl c⟩
      have hillegal : ¬ Legal c.state call := by
        intro hlegal
        rw [hstate] at hlegal
        cases call <;> simp [Legal] at hlegal
      rw [ends_of_run_ok (writerCall_eq_of_illegal hillegal)]
      exact Conversed.refl c
  | readable result =>
      dsimp only
      rw [ends_ite]
      refine ⟨fun _ => ?_, fun _ => ends_fault.mpr ⟨_, rfl⟩⟩
      rw [handleDataReadyForRead, ends_bind, ends_get, ends_ite]
      refine ⟨fun _ => ?_, fun _ => Conversed.refl c⟩
      cases result with
      | error => exact Conversed.of_same rfl rfl rfl rfl rfl
      | endOfStream =>
          dsimp only
          rw [ends_bind, ends_set]
          refine (closeInternal_conversed _).mono (fun _ c' => Conversed.trans ?_) fun _ _ => False.elim
          exact Conversed.of_same rfl rfl rfl rfl rfl
      | data received =>
          dsimp only
          rw [ends_bind, ends_set, handleNewData, ends_bind, ends_get, handleNewDataFrom, ends_bind,
            ends_get, hstate]
          refine (handleHybiWebSocket_conversed ?_ ?_ ?_).mono (fun _ c' => Conversed.trans ?_) fun _ _ => id
          · rfl
          · exact hplain
          · exact hhandler
          · exact Conversed.of_same hstate.symm rfl rfl rfl rfl

end Seasocks.Connection
