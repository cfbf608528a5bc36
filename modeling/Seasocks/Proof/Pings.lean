import Seasocks.Proof.EpollInterest
import Seasocks.Proof.FrameRoundTrip

/-!
# Pings and pongs

The frames a connection sends without compression, and what a turn of the loop of `handleHybiWebSocket`
owes to the ping it has taken.
-/

namespace Seasocks.Connection

open Program Relation WebSocketFrame HybiPacketDecoder

variable {w : World} {c : Connection}

/-! ### Frames in either direction -/

/-- The bytes of unmasked frames without compression. -/
def wire (messages : List Message) : Bytes :=
  messages.flatMap fun message =>
    encode message.opcode.toByte (Output.hybiForm message.payload.length) none message.payload

def pongs (messages : List Message) : List Bytes :=
  messages.filterMap fun message => if message.opcode = .pong then some message.payload else none

/-- The payload of a ping, which has its first reserved bit clear. -/
def pingPayload (frame : Bytes) : Option Bytes :=
  match scan frame with
  | .frame f _ => if f.opcode = Opcode.ping.toByte ∧ f.compressed = false then some f.payload else none
  | .incomplete | .invalid => none

/-- The ping of an entry, taken from an open connection. -/
def pingOf (entry : Entry) : Option Bytes :=
  match entry.call with
  | .frame frame => if entry.out.closing then none else pingPayload frame
  | _ => none

def pings (calls : List Entry) : List Bytes := calls.filterMap pingOf

def isFrame : Call → Bool
  | .frame _ => true
  | _ => false

/-- If nothing has failed, frames have been emitted since `base`, and the pongs among them are those
with the given payloads. -/
def Ponged (base : Output) (payloads : List Bytes) (o : Output) : Prop :=
  (∀ event ∈ o.log, Output.isFailure event = false) →
    ∃ messages, Output.emitted o = Output.emitted base ++ wire messages ∧ pongs messages = payloads

theorem wire_append (messages messages' : List Message) :
    wire (messages ++ messages') = wire messages ++ wire messages' := List.flatMap_append

theorem pongs_append (messages messages' : List Message) :
    pongs (messages ++ messages') = pongs messages ++ pongs messages' := List.filterMap_append

theorem pings_append (calls calls' : List Entry) :
    pings (calls ++ calls') = pings calls ++ pings calls' := List.filterMap_append

theorem pingOf_of_not_frame {entry : Entry} (h : isFrame entry.call = false) : pingOf entry = none := by
  obtain ⟨call, out⟩ := entry
  cases call <;> first | rfl | cases h

theorem pings_eq_nil {calls : List Entry} (h : ∀ entry ∈ calls, isFrame entry.call = false) :
    pings calls = [] :=
  List.filterMap_eq_nil_iff.mpr fun entry hentry => pingOf_of_not_frame (h entry hentry)

/-! ### What is sent -/

/-- Unless something fails, these frames are emitted. -/
def Framed (messages : List Message) (o o' : Output) : Prop :=
  ∃ events, o'.log = o.log ++ events ∧ (o.hadSendError = false → o'.hadSendError = false ∧
    ((∀ event ∈ events, Output.isFailure event = false) →
      Output.emitted o' = Output.emitted o ++ wire messages))

theorem Framed.refl (o : Output) : Framed [] o o :=
  ⟨[], by simp, fun hnoError => ⟨hnoError, fun _ => (List.append_nil _).symm⟩⟩

theorem Framed.trans {messages messages' : List Message} {o o' o'' : Output}
    (h : Framed messages o o') (h' : Framed messages' o' o'') : Framed (messages ++ messages') o o'' := by
  obtain ⟨events, hlog, hframed⟩ := h
  obtain ⟨events', hlog', hframed'⟩ := h'
  refine ⟨events ++ events', by rw [hlog', hlog, List.append_assoc], fun hnoError => ?_⟩
  obtain ⟨hnoError', hemitted⟩ := hframed hnoError
  obtain ⟨hnoError'', hemitted'⟩ := hframed' hnoError'
  refine ⟨hnoError'', fun hquiet => ?_⟩
  rw [List.forall_mem_append] at hquiet
  rw [hemitted' hquiet.2, hemitted hquiet.1, wire_append, List.append_assoc]

/-- Output without new bytes. -/
theorem framed_nil_of_steps {o o' : Output} (hsteps : ReflTransGen (Output.OpStep w) o o')
    (hsame : Output.emitted o' = Output.emitted o) : Framed [] o o' := by
  obtain ⟨events, hlog⟩ := invariant_of_steps (fun o' => o.log <+: o'.log)
    (fun _ _ hgrows hstep => hgrows.trans (Output.OpStep.log_grows hstep)) hsteps List.prefix_rfl
  refine ⟨events, hlog.symm, fun hnoError => ⟨?_, fun _ => ?_⟩⟩
  · exact invariant_of_steps (fun o => o.hadSendError = false)
      (fun _ _ hclear hstep => Output.OpStep.noError hstep hclear) hsteps hnoError
  · rw [hsame]
    exact (List.append_nil _).symm

theorem Ponged.framed {base o o' : Output} {payloads : List Bytes} {messages : List Message}
    (h : Ponged base payloads o) (hframed : Framed messages o o') (hnoError : o.hadSendError = false) :
    Ponged base (payloads ++ pongs messages) o' := by
  obtain ⟨events, hlog, hemits⟩ := hframed
  intro hquiet
  rw [hlog, List.forall_mem_append] at hquiet
  obtain ⟨earlier, hemitted, hpongs⟩ := h hquiet.1
  refine ⟨earlier ++ messages, ?_, by rw [pongs_append, hpongs]⟩
  rw [(hemits hnoError).2 hquiet.2, hemitted, wire_append, List.append_assoc]

/-- Frames of the application, which are no pongs. -/
def Chatter (o o' : Output) : Prop := ∃ messages, pongs messages = [] ∧ Framed messages o o'

theorem Chatter.refl (o : Output) : Chatter o o := ⟨[], rfl, Framed.refl o⟩

theorem Chatter.trans {o o' o'' : Output} (h : Chatter o o') (h' : Chatter o' o'') : Chatter o o'' := by
  obtain ⟨messages, hpongs, hframed⟩ := h
  obtain ⟨messages', hpongs', hframed'⟩ := h'
  exact ⟨messages ++ messages', by rw [pongs_append, hpongs, hpongs', List.append_nil],
    hframed.trans hframed'⟩

theorem chatter_of_steps {o o' : Output} (hsteps : ReflTransGen (Output.OpStep w) o o')
    (hsame : Output.emitted o' = Output.emitted o) : Chatter o o' :=
  ⟨[], rfl, framed_nil_of_steps hsteps hsame⟩

theorem Chatter.noError {o o' : Output} (h : Chatter o o') (hnoError : o.hadSendError = false) :
    o'.hadSendError = false := by
  obtain ⟨messages, -, events, -, hframed⟩ := h
  exact (hframed hnoError).1

/-- A frame of the server, on a connection without compression. -/
theorem sendHybi_framed (opcode : Opcode) (message : Bytes) (hplain : c.perMessageDeflate = false) :
    Ends (sendHybi w opcode message) c
      (fun _ c' => c' = { c with out := c'.out } ∧
        Framed (if c.closing then [] else [⟨opcode, message⟩]) c.out c'.out ∧
        Output.Begins (wire (if c.closing then [] else [⟨opcode, message⟩])) c.out c'.out)
      fun _ _ => False := by
  have hsends := sendHybi_sends (w := w) opcode message c
  have hemits := (sendHybi_emits (w := w) opcode message hplain).and
    (sendHybi_begins (w := w) opcode message hplain)
  have hsame : Ends (sendHybi w opcode message) c (fun _ c' => c' = { c with out := c'.out } ∧
      (c.closing = true → c'.out = c.out)) fun _ _ => False := by
    have hnot : ¬ c.perMessageDeflate = true := by simp [hplain]
    rw [sendHybi, ends_bind, ends_get]
    dsimp only
    rw [if_neg hnot, ends_bind, ends_liftOut]
    by_cases hclosing : c.closing = true
    · refine (Output.write_closing _ _ hclosing).mono fun done out h => ?_
      rw [h.1, h.2]
      exact ⟨rfl, fun _ => rfl⟩
    · refine After.of_forall fun done out => ?_
      rw [ends_ite]
      refine ⟨fun _ => ?_, fun _ => ⟨rfl, fun h => absurd h hclosing⟩⟩
      rw [if_neg hnot, ends_liftOut]
      exact After.of_forall fun _ _ => ⟨rfl, fun h => absurd h hclosing⟩
  refine ((hsends.and hemits).and hsame).mono ?_ fun _ _ h => h.2
  rintro - c' ⟨⟨hsteps, hemits, hbegins⟩, hframe, hrefused⟩
  refine ⟨hframe, ?_⟩
  by_cases hclosing : c.closing = true
  · rw [if_pos hclosing, hrefused hclosing]
    exact ⟨Framed.refl _, Output.begins_nil rfl⟩
  · have hwire : wire [⟨opcode, message⟩] =
        encode opcode.toByte (Output.hybiForm message.length) none message := by
      rw [wire, List.flatMap_cons, List.flatMap_nil, List.append_nil]
    rw [if_neg hclosing, hwire]
    refine ⟨?_, hbegins⟩
    obtain ⟨out, calls, hc', hout, -⟩ := Sends.frame hsteps
    obtain ⟨events, hlog, hemitted⟩ := hemits
    refine ⟨events, hlog, fun hnoError => ⟨?_, fun hquiet => ?_⟩⟩
    · rw [hc']
      exact invariant_of_steps (fun o => o.hadSendError = false)
        (fun _ _ hclear hstep => Output.OpStep.noError hstep hclear) hout hnoError
    · have hopen : c.out.closing = false := Bool.eq_false_iff.mpr hclosing
      rw [(hemitted hopen hnoError hquiet).2.2, hwire]

theorem close_emitted (o : Output) :
    After Output.close o fun _ o' => Output.emitted o' = Output.emitted o := by
  rw [Output.close, after_bind, after_modify]
  exact Output.closeInternal_emitted _

theorem sendHybi_chatter (opcode : Opcode) (message : Bytes) (hopcode : opcode ≠ .pong)
    (hplain : c.perMessageDeflate = false) :
    Ends (sendHybi w opcode message) c
      (fun _ c' => c' = { c with out := c'.out } ∧ Chatter c.out c'.out) fun _ _ => False := by
  refine (sendHybi_framed opcode message hplain).mono (fun _ c' h => ⟨h.1, _, ?_, h.2.1⟩) fun _ _ => id
  split_ifs
  · rfl
  · rw [pongs, List.filterMap_cons, if_neg hopcode]
    rfl

/-- What the application does with a connection that is not one of the Hixie protocol. -/
theorem wsCall_chatter (call : WsCall) (hstate : c.state ≠ .handlingHixieWebSocket)
    (hplain : c.perMessageDeflate = false) :
    Ends (wsCall w call) c
      (fun _ c' => c' = { c with out := c'.out } ∧ Chatter c.out c'.out) fun _ _ => False := by
  cases call with
  | sendText data =>
      rw [wsCall, sendText, ends_bind, ends_get, if_neg hstate, ends_ite]
      exact ⟨fun _ => sendHybi_chatter _ _ (by simp) hplain, fun _ => ⟨rfl, Chatter.refl _⟩⟩
  | sendBinary data =>
      rw [wsCall, sendBinary, ends_bind, ends_get, if_pos hstate, ends_ite]
      exact ⟨fun _ => sendHybi_chatter _ _ (by simp) hplain, fun _ => ⟨rfl, Chatter.refl _⟩⟩
  | close =>
      rw [wsCall, ends_liftOut]
      refine ((close_emitted c.out).and (Output.close_runs (w := w) c.out)).mono fun _ out h => ?_
      exact ⟨rfl, chatter_of_steps h.2 h.1⟩

theorem callHandler_chatter (call : Call) (react : List Entry → List WsCall)
    (hstate : c.state ≠ .handlingHixieWebSocket) (hplain : c.perMessageDeflate = false) :
    Ends (callHandler w call react) c
      (fun _ c' => c' = { c with out := c'.out, calls := c.calls ++ [⟨call, c.out⟩] } ∧
        Chatter c.out c'.out) fun _ _ => False := by
  rw [callHandler, record, ends_bind, ends_modify, ends_bind, ends_get]
  refine ends_forM ?_ ⟨rfl, Chatter.refl _⟩
  rintro call' - c₁ ⟨hc₁, hchatter⟩
  have hstate₁ : c₁.state ≠ .handlingHixieWebSocket := by
    rw [hc₁]
    exact hstate
  have hplain₁ : c₁.perMessageDeflate = false := by
    rw [hc₁]
    exact hplain
  refine (wsCall_chatter call' hstate₁ hplain₁).mono ?_ fun _ _ => id
  rintro - c₂ ⟨hc₂, hchatter'⟩
  refine ⟨?_, hchatter.trans hchatter'⟩
  rw [hc₂, hc₁]

theorem closeInternal_chatter (c : Connection) :
    Ends closeInternal c (fun _ c' => c' = { c with out := c'.out } ∧ Chatter c.out c'.out)
      fun _ _ => False := by
  rw [closeInternal, ends_liftOut]
  refine ((Output.closeInternal_emitted c.out).and
    (Output.closeInternal_runs (w := .plain) c.out)).mono fun _ out h => ?_
  exact ⟨rfl, chatter_of_steps h.2 h.1⟩

/-! ### Answering -/

/-- The pings taken are answered, but for the last ones that are still `owed`, and those before any
frame were answered before it. -/
structure Answering (base : Output) (owed : List Bytes) (c : Connection) : Prop where
  plain : c.perMessageDeflate = false
  noError : c.out.hadSendError = false
  replied : ∃ paid, pings c.calls = paid ++ owed ∧ Ponged base paid c.out
  earlier : ∀ taken entry rest, c.calls = taken ++ entry :: rest → isFrame entry.call = true →
    Ponged base (pings taken) entry.out

variable {base : Output} {owed : List Bytes}

theorem Answering.chatter {c' : Connection} (h : Answering base owed c)
    (hframe : c' = { c with out := c'.out }) (hchatter : Chatter c.out c'.out) :
    Answering base owed c' := by
  obtain ⟨messages, hpongs, hframed⟩ := id hchatter
  obtain ⟨paid, hpaid, hponged⟩ := h.replied
  have hponged' := hponged.framed hframed h.noError
  rw [hpongs, List.append_nil] at hponged'
  refine ⟨?_, hchatter.noError h.noError, ⟨paid, ?_, hponged'⟩, ?_⟩
  · rw [hframe]
    exact h.plain
  · rw [hframe]
    exact hpaid
  · rw [hframe]
    exact h.earlier

theorem append_eq_concat {calls taken rest : List Entry} {entry entry' : Entry}
    (h : calls ++ [entry'] = taken ++ entry :: rest) :
    (∃ rest', calls = taken ++ entry :: rest') ∨ taken = calls ∧ entry = entry' := by
  rcases List.eq_nil_or_concat rest with rfl | ⟨rest', last, rfl⟩
  · obtain ⟨hcalls, hentry⟩ := List.append_inj' h rfl
    injection hentry with hentry
    exact Or.inr ⟨hcalls.symm, hentry.symm⟩
  · rw [List.concat_eq_append, ← List.cons_append, ← List.append_assoc] at h
    exact Or.inl ⟨rest', (List.append_inj' h rfl).1⟩

/-- Any other entry of the log. -/
theorem Answering.record {call : Call} (h : Answering base owed c) (hcall : isFrame call = false) :
    Answering base owed { c with calls := c.calls ++ [⟨call, c.out⟩] } := by
  obtain ⟨paid, hpaid, hponged⟩ := h.replied
  refine ⟨h.plain, h.noError, ⟨paid, ?_, hponged⟩, fun taken entry rest hcalls hentry => ?_⟩
  · rw [pings_append, hpaid, pings_eq_nil (by simpa using hcall), List.append_nil]
  · rcases append_eq_concat hcalls with ⟨rest', hcalls⟩ | ⟨-, rfl⟩
    · exact h.earlier taken entry rest' hcalls hentry
    · rw [hcall] at hentry
      cases hentry

/-- A frame, with what it is owed. -/
theorem Answering.frame {frame : Bytes} (h : Answering base [] c) :
    Answering base (pings [⟨.frame frame, c.out⟩])
      { c with calls := c.calls ++ [⟨.frame frame, c.out⟩] } := by
  obtain ⟨paid, hpaid, hponged⟩ := h.replied
  rw [List.append_nil] at hpaid
  refine ⟨h.plain, h.noError, ⟨paid, ?_, hponged⟩, fun taken entry rest hcalls hentry => ?_⟩
  · rw [pings_append, hpaid]
  · rcases append_eq_concat hcalls with ⟨rest', hcalls⟩ | ⟨rfl, rfl⟩
    · exact h.earlier taken entry rest' hcalls hentry
    · rw [hpaid]
      exact hponged

/-- The answer to a ping. -/
theorem Answering.pong {message : Bytes} {c' : Connection}
    (h : Answering base (if c.closing then [] else [message]) c) (hframe : c' = { c with out := c'.out })
    (hframed : Framed (if c.closing then [] else [⟨.pong, message⟩]) c.out c'.out) :
    Answering base [] c' := by
  obtain ⟨paid, hpaid, hponged⟩ := h.replied
  have hpongs : pongs (if c.closing then [] else [⟨.pong, message⟩]) =
      if c.closing then [] else [message] := by
    split_ifs <;> rfl
  have hponged' := hponged.framed hframed h.noError
  rw [hpongs, ← hpaid] at hponged'
  obtain ⟨events, -, hnoError⟩ := hframed
  refine ⟨?_, (hnoError h.noError).1, ⟨pings c.calls, ?_, hponged'⟩, ?_⟩
  · rw [hframe]
    exact h.plain
  · rw [hframe, List.append_nil]
  · rw [hframe]
    exact h.earlier

/-! ### A turn of the loop -/

/-- The connection is still in the same state, and no answer is owed. -/
def Settles (base : Output) (c c' : Connection) : Prop := c'.state = c.state ∧ Answering base [] c'

theorem closeInternal_settles (h : Answering base [] c) :
    Ends closeInternal c (fun _ c' => Settles base c c') fun _ _ => False := by
  refine (closeInternal_chatter c).mono (fun _ c' hc' => ⟨?_, h.chatter hc'.1 hc'.2⟩) fun _ _ => id
  rw [hc'.1]

theorem callHandler_settles {call : Call} (react : List Entry → List WsCall)
    (hcall : isFrame call = false) (hstate : c.state ≠ .handlingHixieWebSocket)
    (h : Answering base [] c) :
    Ends (callHandler w call react) c (fun _ c' => Settles base c c') fun _ _ => False := by
  refine (callHandler_chatter call react hstate h.plain).mono (fun _ c' hc' => ⟨?_, ?_⟩) fun _ _ => id
  · rw [hc'.1]
  · exact (h.record hcall).chatter hc'.1 hc'.2

theorem handleWebSocketTextMessage_settles (message : Bytes)
    (hstate : c.state ≠ .handlingHixieWebSocket) (h : Answering base [] c) :
    Ends (handleWebSocketTextMessage w message) c (fun _ c' => Settles base c c') fun _ _ => False := by
  rw [handleWebSocketTextMessage, ends_bind, ends_get]
  cases c.webSocketHandler with
  | none => exact ⟨rfl, h⟩
  | some handler => exact callHandler_settles _ rfl hstate h

theorem handleWebSocketBinaryMessage_settles (message : Bytes)
    (hstate : c.state ≠ .handlingHixieWebSocket) (h : Answering base [] c) :
    Ends (handleWebSocketBinaryMessage w message) c (fun _ c' => Settles base c c')
      fun _ _ => False := by
  rw [handleWebSocketBinaryMessage, ends_bind, ends_get]
  cases c.webSocketHandler with
  | none => exact ⟨rfl, h⟩
  | some handler => exact callHandler_settles _ rfl hstate h

/-- What a frame of this kind is owed by an open connection. -/
def owedFor (messageState : MessageState) (message : Bytes) (c : Connection) : List Bytes :=
  if messageState = .ping then if c.closing then [] else [message] else []

theorem dispatchMessage_settles {messageState : MessageState} (message : Bytes)
    (hstate : c.state ≠ .handlingHixieWebSocket)
    (h : Answering base (owedFor messageState message c) c) :
    Ends (dispatchMessage w messageState message) c (fun _ c' => Settles base c c')
      fun _ _ => False := by
  cases messageState with
  | noMessage | pong => exact ⟨rfl, h⟩
  | textMessage =>
      rw [dispatchMessage, ends_bind]
      exact (handleWebSocketTextMessage_settles _ hstate h).mono (fun _ _ => id) fun _ _ => id
  | binaryMessage =>
      rw [dispatchMessage, ends_bind]
      exact (handleWebSocketBinaryMessage_settles _ hstate h).mono (fun _ _ => id) fun _ _ => id
  | error | close =>
      rw [dispatchMessage, ends_bind]
      exact (closeInternal_settles h).mono (fun _ _ => id) fun _ _ => id
  | ping =>
      rw [dispatchMessage, ends_bind]
      refine (sendHybi_framed .pong message h.plain).mono (fun _ c' hc' => ⟨?_, ?_⟩) fun _ _ => id
      · rw [hc'.1]
      · exact h.pong hc'.1 hc'.2.1

/-- Without compression a message is left as it is, or the connection is closed over it. -/
theorem inflateMessage_settles {decoded : Decoded} (hplain : c.perMessageDeflate = false) :
    Ends (inflateMessage w decoded) c (fun result c' =>
      (decoded.deflateNeeded = false → result = some decoded.messageOut ∧ c' = c) ∧
      (decoded.deflateNeeded = true → result = none ∧ c' = { c with out := c'.out } ∧
        Chatter c.out c'.out)) fun _ _ => False := by
  rw [inflateMessage, ends_ite]
  refine ⟨fun hneeded => ?_, fun hnot => ⟨fun _ => ⟨rfl, rfl⟩, fun h => absurd h hnot⟩⟩
  rw [ends_bind, ends_get, if_neg (by simp [hplain]), ends_bind]
  refine (closeInternal_chatter c).mono (fun _ c' hc' => ⟨fun h => ?_, fun _ => ⟨rfl, hc'⟩⟩)
    fun _ _ => id
  rw [hneeded] at h
  cases h

theorem messageStateOf_eq_ping_iff (opcode : UInt8) :
    messageStateOf opcode = .ping ↔ opcode = Opcode.ping.toByte := by
  unfold messageStateOf
  split_ifs with h₁ h₂ h₃ h₄ h₅ <;> simp_all [Opcode.toByte]

/-- A frame is owed what the decoder's result says, unless it is compressed. -/
theorem pings_frame {stream : Bytes} {f : Frame} {size : Nat} (hscan : scan stream = .frame f size)
    (c : Connection) :
    pings [⟨.frame (stream.take size), c.out⟩] =
      if f.compressed then [] else owedFor (messageStateOf f.opcode) f.payload c := by
  have hpayload : pingPayload (stream.take size) =
      if f.opcode = Opcode.ping.toByte ∧ f.compressed = false then some f.payload else none := by
    rw [pingPayload, scan_take hscan]
  have hclosing : c.closing = c.out.closing := rfl
  simp only [owedFor, messageStateOf_eq_ping_iff, pings, List.filterMap_cons, List.filterMap_nil,
    pingOf, hpayload, hclosing]
  by_cases hopcode : f.opcode = Opcode.ping.toByte
  · cases f.compressed <;> cases c.out.closing <;> simp [hopcode]
  · cases f.compressed <;> cases c.out.closing <;> simp [hopcode]

/-- There is no meaning to go on with. -/
def Faulted (e : Exn) (_ : Connection) : Prop := ∃ f, e = .fault f

/-- The rest of a turn, once the frame is taken. -/
theorem turn_settles {decoded : Decoded} {f : Option Bool → ConnM (Option Nat)}
    (hstate : c.state ≠ .handlingHixieWebSocket)
    (h : Answering base
      (if decoded.deflateNeeded then [] else owedFor decoded.messageState decoded.messageOut c) c)
    (hf : ∀ goOn c', Settles base c c' →
      Ends (f goOn) c' (fun _ c'' => Settles base c c'') Faulted) :
    Ends (do
      match ← inflateMessage w decoded with
      | none => return none
      | some message => f (← dispatchMessage w decoded.messageState message)) c
      (fun _ c' => Settles base c c') Faulted := by
  rw [ends_bind]
  refine (inflateMessage_settles h.plain).mono (fun result c' hc' => ?_) fun _ _ => False.elim
  cases hneeded : decoded.deflateNeeded with
  | false =>
      obtain ⟨rfl, rfl⟩ := hc'.1 hneeded
      rw [hneeded, if_neg Bool.false_ne_true] at h
      dsimp only
      rw [ends_bind]
      exact (dispatchMessage_settles _ hstate h).mono (fun goOn c' => hf goOn c') fun _ _ => False.elim
  | true =>
      obtain ⟨rfl, hframe, hchatter⟩ := hc'.2 hneeded
      rw [hneeded, if_pos rfl] at h
      refine ⟨?_, h.chatter hframe hchatter⟩
      rw [hframe]

theorem hybiLoop_settles (inBuf : Bytes) (fuel messageStart : Nat)
    (hstate : c.state ≠ .handlingHixieWebSocket) (h : Answering base [] c) :
    Ends (hybiLoop w inBuf fuel messageStart) c (fun _ c' => Settles base c c') Faulted := by
  induction fuel generalizing messageStart c with
  | zero => exact ⟨rfl, h⟩
  | succ fuel ih =>
      rw [hybiLoop]
      cases hdecode : decodeNextMessage inBuf messageStart [] false with
      | error f => exact ends_fault.mpr ⟨f, rfl⟩
      | ok decoded =>
          have next : ∀ c₁ : Connection, c₁.state = c.state → ∀ goOn c', Settles base c₁ c' →
              Ends (hybiNextTurn w inBuf fuel decoded.messageStart goOn) c'
                (fun _ c'' => Settles base c₁ c'') Faulted := by
            intro c₁ hsame goOn c' hc'
            rcases goOn with - | - | -
            · exact hc'
            · exact hc'
            · have hstate' : c'.state ≠ .handlingHixieWebSocket := by
                rw [hc'.1, hsame]
                exact hstate
              exact (ih _ hstate' hc'.2).mono (fun _ _ h' => ⟨h'.1.trans hc'.1, h'.2⟩) fun _ _ => id
          dsimp only
          rw [ends_ite]
          rcases decodeNextMessage_ok hdecode with ⟨-, rfl⟩ | ⟨-, hnone, -, hstay⟩ | ⟨f, size, hscan, rfl⟩
          · refine ⟨fun hmoved => absurd hmoved (Nat.lt_irrefl _), fun _ => ?_⟩
            exact turn_settles hstate h (next c rfl)
          · rw [hstay]
            refine ⟨fun hmoved => absurd hmoved (Nat.lt_irrefl _), fun _ => ?_⟩
            refine turn_settles hstate ?_ (hstay ▸ next c rfl)
            have hnothing : owedFor decoded.messageState decoded.messageOut c = [] := by
              rw [owedFor, hnone]
              rfl
            rw [hnothing, ite_self]
            exact h
          · have hsize := scan_size hscan
            refine ⟨fun _ => ?_, fun hnot => absurd (by dsimp only; omega) hnot⟩
            have htaken : (inBuf.take (messageStart + size)).drop messageStart =
                (inBuf.drop messageStart).take size := by
              rw [List.drop_take, Nat.add_sub_cancel_left]
            dsimp only
            rw [htaken, record, ends_bind, ends_modify]
            refine turn_settles hstate ?_ (next _ rfl)
            have howed : Answering base
                (pings [⟨.frame ((inBuf.drop messageStart).take size), c.out⟩])
                { c with
                  calls := c.calls ++ [⟨.frame ((inBuf.drop messageStart).take size), c.out⟩] } :=
              h.frame
            rw [pings_frame hscan] at howed
            exact howed

end Seasocks.Connection
