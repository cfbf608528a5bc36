import Seasocks.Proof.CloseOnEmpty
import Seasocks.Proof.InputLimit

/-!
# Which closes a connection runs into

The WebSocket routines never mark a connection to close, and a request is served without a close that
does not look at the output buffer.
-/

namespace Seasocks.Connection

open Program Relation

variable {w : World} {c : Connection} {excluded : Output.Op}

/-! ### Steps without an operation -/

/-- The output side is left alone, or changed by any operation but one. -/
def Touches (w : World) (excluded : Output.Op) (c c' : Connection) : Prop :=
  c'.out = c.out ∨ Output.StepBut w excluded c.out c'.out

theorem touches_same {c' : Connection} (h : c'.out = c.out) : Touches w excluded c c' := Or.inl h

/-- The same in terms of the output side alone. -/
theorem steps_of_touches {c' : Connection} (h : ReflTransGen (Touches w excluded) c c') :
    ReflTransGen (Output.StepBut w excluded) c.out c'.out := by
  induction h with
  | refl => exact ReflTransGen.refl
  | tail _ hstep ih =>
      rcases hstep with hsame | hstep
      · rw [hsame]
        exact ih
      · exact ih.tail hstep

theorem liftOut_touches {α : Type} {m : OutM α} (h : Runs (Output.StepBut w excluded) m) :
    Returns (Touches w excluded) (liftOut m) := fun c => by
  rw [ends_liftOut]
  refine (h c.out).mono fun _ out hout => ?_
  refine ReflTransGen.lift (fun out => { c with out := out }) (fun o o' hstep => ?_) _ _ hout
  exact Or.inr hstep

theorem modify_touches {f : Connection → Connection} (h : ∀ c, (f c).out = c.out) :
    Returns (Touches w excluded) (modify f : ConnM PUnit) := Returns.single fun c => touches_same (h c)

theorem record_touches (call : Call) : Returns (Touches w excluded) (record call) :=
  modify_touches fun _ => rfl

theorem setState_touches (state : State) : Returns (Touches w excluded) (setState state) :=
  modify_touches fun _ => rfl

/-- What comes right before an exception leaves the output side alone. -/
theorem Thrown.out_eq {e : Exn} {c' : Connection} (h : Thrown e c c') : c'.out = c.out := by
  cases h <;> rfl

/-! ### Sending -/

section Sending

variable (hexcluded : excluded = .closeInternal ∨ excluded = .closeWhenEmpty)

include hexcluded

theorem buffers_touches {α : Type} {m : OutM α} (h : Runs (Output.BufferStep w) m) :
    Returns (Touches w excluded) (liftOut m) :=
  liftOut_touches (h.mono fun _ _ hstep => hstep.but hexcluded)

theorem sendHybi_touches (opcode : HybiPacketDecoder.Opcode) (webSocketResponse : Bytes) :
    Returns (Touches w excluded) (sendHybi w opcode webSocketResponse) := by
  have data : ∀ message : Bytes,
      Returns (Touches w excluded) (liftOut (Output.sendHybiData w message)) :=
    fun _ => buffers_touches hexcluded (Output.sendHybiData_runs _)
  refine Returns.get_bind fun c => (buffers_touches hexcluded (Output.write_runs _ _)).bind fun _ => ?_
  refine Returns.ite (Returns.ite ?_ (data _)) (Returns.pure _)
  exact Returns.get_bind fun c => (record_touches _).bind fun _ => data _

theorem wsCall_touches (call : WsCall) : Returns (Touches w excluded) (wsCall w call) := by
  have write : ∀ (data : Bytes) (flushIt : Bool),
      Returns (Touches w excluded) (liftOut (Output.write w data flushIt)) :=
    fun _ _ => buffers_touches hexcluded (Output.write_runs _ _)
  cases call with
  | sendText data =>
      refine Returns.get_bind fun c => Returns.ite (Returns.ite ?_ ?_) (Returns.pure _)
      · refine (write _ _).bind fun _ => Returns.ite ?_ (Returns.pure _)
        refine (write _ _).bind fun _ => Returns.ite ?_ (Returns.pure _)
        exact (write _ _).bind fun _ => Returns.pure _
      · exact sendHybi_touches hexcluded _ _
  | sendBinary data =>
      refine Returns.get_bind fun c => Returns.ite (Returns.ite ?_ (Returns.pure _)) (Returns.pure _)
      exact sendHybi_touches hexcluded _ _
  | close =>
      refine liftOut_touches (Runs.single fun o => ⟨.close, ?_, rfl⟩)
      rintro rfl
      simp at hexcluded

theorem callHandler_touches (call : Call) (react : List Entry → List WsCall) :
    Returns (Touches w excluded) (callHandler w call react) :=
  (record_touches call).bind fun _ =>
    Returns.get_bind fun _ => Returns.forM fun use => wsCall_touches hexcluded use

/-- A call of the installed handler, if there is one. -/
theorem callInstalled_touches {call : HandlerId → Call} {react : HandlerId → List Entry → List WsCall}
    (installed : Option HandlerId) :
    Returns (Touches w excluded) (match installed with
      | some handler => callHandler w (call handler) (react handler)
      | none => pure ()) := by
  cases installed with
  | none => exact Returns.pure _
  | some handler => exact callHandler_touches hexcluded _ _

end Sending

/-! ### Messages -/

theorem closeInternal_touches : Returns (Touches w .closeWhenEmpty) closeInternal :=
  liftOut_touches (Runs.single fun _ => ⟨.closeInternal, by simp, rfl⟩)

theorem closeIfTooLong_touches : Returns (Touches w .closeWhenEmpty) closeIfTooLong :=
  Returns.get_bind fun _ => Returns.ite closeInternal_touches (Returns.pure _)

theorem handleWebSocketTextMessage_touches (message : Bytes) :
    Returns (Touches w .closeWhenEmpty) (handleWebSocketTextMessage w message) :=
  Returns.get_bind fun c => callInstalled_touches (Or.inr rfl) c.webSocketHandler

theorem handleWebSocketBinaryMessage_touches (message : Bytes) :
    Returns (Touches w .closeWhenEmpty) (handleWebSocketBinaryMessage w message) :=
  Returns.get_bind fun c => callInstalled_touches (Or.inr rfl) c.webSocketHandler

theorem hixieLoop_touches (inBuf : Bytes) (fuel messageStart : Nat) :
    Returns (Touches w .closeWhenEmpty) (hixieLoop w inBuf fuel messageStart) := by
  induction fuel generalizing messageStart with
  | zero => exact Returns.pure _
  | succ fuel ih =>
      rw [hixieLoop]
      cases inBuf.drop messageStart with
      | nil => exact Returns.pure _
      | cons first rest =>
          refine Returns.ite (closeInternal_touches.bind fun _ => Returns.pure _) ?_
          cases rest.idxOf? 0xff with
          | none => exact Returns.pure _
          | some length =>
              refine (record_touches _).bind fun _ => ?_
              exact (handleWebSocketTextMessage_touches _).bind fun _ => ih _

theorem handleHixieWebSocket_touches :
    Returns (Touches w .closeWhenEmpty) (handleHixieWebSocket w) := by
  refine Returns.get_bind fun c => Returns.ite ?_ (Returns.pure _)
  refine (hixieLoop_touches _ _ _).bind fun messageEnd => ?_
  cases messageEnd with
  | none => exact Returns.pure _
  | some messageStart =>
      refine Returns.bind ?_ fun _ => closeIfTooLong_touches
      exact modify_touches fun _ => rfl

theorem inflateMessage_touches (decoded : HybiPacketDecoder.Decoded) :
    Returns (Touches w .closeWhenEmpty) (inflateMessage w decoded) := by
  have close : Returns (Touches w .closeWhenEmpty) (do closeInternal; return none : ConnM (Option Bytes)) :=
    closeInternal_touches.bind fun _ => Returns.pure _
  refine Returns.ite (Returns.get_bind fun _ => Returns.ite ?_ close) (Returns.pure _)
  refine (record_touches _).bind fun _ => Returns.get_bind fun c => ?_
  cases w.inflate c.calls decoded.messageOut with
  | none => exact close
  | some decompressed => exact Returns.pure _

theorem dispatchMessage_touches (messageState : HybiPacketDecoder.MessageState) (message : Bytes) :
    Returns (Touches w .closeWhenEmpty) (dispatchMessage w messageState message) := by
  cases messageState with
  | noMessage | pong => exact Returns.pure _
  | textMessage => exact (handleWebSocketTextMessage_touches _).bind fun _ => Returns.pure _
  | binaryMessage => exact (handleWebSocketBinaryMessage_touches _).bind fun _ => Returns.pure _
  | ping => exact (sendHybi_touches (Or.inr rfl) _ _).bind fun _ => Returns.pure _
  | error | close => exact closeInternal_touches.bind fun _ => Returns.pure _

theorem hybiLoop_touches (inBuf : Bytes) (fuel messageStart : Nat) (c : Connection) :
    Steps (Touches w .closeWhenEmpty) Thrown (hybiLoop w inBuf fuel messageStart) c := by
  induction fuel generalizing messageStart c with
  | zero => exact Steps.pure _
  | succ fuel ih =>
      rw [hybiLoop]
      cases HybiPacketDecoder.decodeNextMessage inBuf messageStart [] false with
      | error f => exact fault_steps
      | ok decoded =>
          have deliver : ∀ c, Steps (Touches w .closeWhenEmpty) Thrown (hybiTurn w inBuf fuel decoded) c := by
            intro c
            rw [hybiTurn]
            refine ((inflateMessage_touches decoded).steps c).bind fun inflated c₁ _ => ?_
            cases inflated with
            | none => exact Steps.pure _
            | some message =>
                refine ((dispatchMessage_touches _ _).steps c₁).bind fun goOn c₂ _ => ?_
                rcases goOn with _ | _ | _
                · exact Steps.pure _
                · exact Steps.pure _
                · exact ih _ _
          refine Steps.ite (fun _ => ?_) fun _ => deliver c
          exact ((record_touches _).steps c).bind fun _ c₁ _ => deliver c₁

theorem handleHybiWebSocket_touches (c : Connection) :
    Steps (Touches w .closeWhenEmpty) Thrown (handleHybiWebSocket w) c := by
  refine Steps.get_bind (Steps.ite (fun _ => ?_) fun _ => Steps.pure _)
  refine (hybiLoop_touches _ _ _ c).bind fun messageEnd c₁ _ => ?_
  cases messageEnd with
  | none => exact Steps.pure _
  | some numBytesDecoded =>
      have rest : Returns (Touches w .closeWhenEmpty) (do
          modify fun c => { c with inBuf := c.inBuf.drop numBytesDecoded }
          closeIfTooLong) := by
        refine Returns.bind ?_ fun _ => closeIfTooLong_touches
        exact modify_touches fun _ => rfl
      exact rest.steps c₁

theorem handleWebSocketKey3_touches (c : Connection) :
    Steps (Touches w .closeWhenEmpty) Thrown (handleWebSocketKey3 w) c := by
  have hixie : Returns (Touches w .closeWhenEmpty) (startHixie w) := by
    refine Returns.bind ?_ fun _ =>
      Returns.get_bind fun c => callInstalled_touches (Or.inr rfl) c.webSocketHandler
    exact modify_touches fun _ => rfl
  refine Steps.get_bind (Steps.ite (fun _ => ?_) fun _ => Steps.pure _)
  refine theRequest_bind_steps fun request _ => ?_
  refine ((record_touches _).steps c).bind fun _ c₁ _ => ?_
  refine ((buffers_touches (Or.inr rfl) (Output.hixieHandshake_runs _ _ _)).steps c₁).bind
    fun _ c₂ _ => ?_
  exact hixie.steps c₂

/-! ### Requests -/

theorem sendError_but (code : ResponseCode) (body : Bytes) :
    Runs (Output.StepBut w .closeInternal) (Output.sendError w code body) := by
  have routine : ∀ {α : Type} {m : OutM α}, Runs (Output.BufferStep w) m →
      Runs (Output.StepBut w .closeInternal) m :=
    fun h => h.mono fun _ _ hstep => hstep.but (Or.inl rfl)
  have mark : Runs (Output.StepBut w .closeInternal) Output.closeWhenEmpty :=
    Runs.single fun _ => ⟨.closeWhenEmpty, by simp, rfl⟩
  refine (routine (Output.bufferResponseAndCommonHeaders_runs _)).bind fun _ => ?_
  refine (routine (Output.bufferLine_runs _)).bind fun _ => ?_
  refine (routine (Output.bufferText_runs _)).bind fun _ => ?_
  refine (routine (Output.bufferText_runs _)).bind fun _ => ?_
  refine (routine (Output.bufferLine_runs _)).bind fun _ => (routine Output.flush_runs).bind fun _ => ?_
  exact (mark.bind fun _ => Runs.pure _).ite (Runs.pure _)

theorem sendError_touches (responseCode : ResponseCode) (body : Bytes) (c : Connection) :
    Steps (Touches w .closeInternal) Thrown (sendError w responseCode body) c :=
  Steps.get_bind (Steps.ite (fun _ => fault_steps) fun _ =>
    (liftOut_touches (sendError_but _ _)).steps c)

theorem send404_touches (c : Connection) :
    Steps (Touches w .closeInternal) Thrown (send404 w) c := by
  have document : ∀ type content : Bytes,
      Returns (Touches w .closeInternal) (liftOut (Output.sendData w type content)) := fun _ _ =>
    buffers_touches (Or.inl rfl) (Output.sendData_runs _ _)
  refine Steps.get_bind ?_
  dsimp only
  cases w.embeddedContent c.getRequestUri with
  | some embedded => exact (document _ _).steps c
  | none =>
      exact Steps.ite (fun _ => (document _ _).steps c) fun _ => sendError_touches _ _ _

theorem writeChunkHeader_touches (size : Nat) :
    Returns (Touches w .closeInternal) (writeChunkHeader w size) := by
  intro c
  have hset : Touches w .closeInternal c { c with chunk := c.chunk + 1 } := touches_same rfl
  rw [writeChunkHeader, ends_bind, ends_get]
  dsimp only
  rw [ends_bind, ends_set]
  refine (((buffers_touches (Or.inl rfl) (Output.write_runs _ _)).bind fun _ => Returns.pure _) _).mono
    (fun _ _ hsteps => ReflTransGen.head hset hsteps) fun _ _ => id

/-- What a response does with its writer never closes the connection before its output is sent. -/
theorem writerCall_touches (call : WriterCall) (c : Connection) :
    Steps (Touches w .closeInternal) Thrown (writerCall w call) c := by
  have routine : ∀ {α : Type} {m : OutM α}, Runs (Output.BufferStep w) m →
      Returns (Touches w .closeInternal) (do let _ ← liftOut m : ConnM Unit) :=
    fun h => (buffers_touches (Or.inl rfl) h).bind fun _ => Returns.pure _
  have body : ∀ (data : Bytes) (flush : Bool),
      Returns (Touches w .closeInternal) (payloadBody w data flush) := fun _ _ =>
    Returns.get_bind fun _ => Returns.ite
      ((writeChunkHeader_touches _).bind fun _ => routine (Output.write_runs _ _))
      (routine (Output.write_runs _ _))
  have mark : Returns (Touches w .closeInternal) (liftOut Output.closeWhenEmpty) :=
    liftOut_touches (Runs.single fun _ => ⟨.closeWhenEmpty, by simp, rfl⟩)
  have last : Returns (Touches w .closeInternal)
      (modify fun c => { c with state := .readingHeaders, response := none } : ConnM Unit) :=
    modify_touches fun _ => rfl
  have ending : ∀ keepConnectionOpen,
      Returns (Touches w .closeInternal) (finishBody w keepConnectionOpen) := by
    intro keepConnectionOpen
    have close : Returns (Touches w .closeInternal) (do
        let _ ← liftOut (Output.flush w)
        if !keepConnectionOpen then
          liftOut Output.closeWhenEmpty
        modify fun c => { c with state := .readingHeaders, response := none } : ConnM Unit) :=
      (buffers_touches (Or.inl rfl) Output.flush_runs).bind fun _ =>
        Returns.ite (mark.bind fun _ => last) last
    refine Returns.get_bind fun _ => Returns.ite ?_ close
    refine (writeChunkHeader_touches 0).bind fun _ => ?_
    exact (buffers_touches (Or.inl rfl) (Output.write_runs _ _)).bind fun _ => close
  have line : ∀ text : String,
      Returns (Touches w .closeInternal) (liftOut (Output.bufferText w text)) := fun _ =>
    buffers_touches (Or.inl rfl) (Output.bufferText_runs _)
  cases call with
  | begin responseCode encoding =>
      refine Returns.steps (Returns.get_bind fun _ => Returns.ite ?_ (Returns.pure _)) c
      refine (setState_touches _).bind fun _ => ?_
      refine (buffers_touches (Or.inl rfl) (Output.bufferResponseAndCommonHeaders_runs _)).bind fun _ => ?_
      refine Returns.bind ?_ fun _ => Returns.ite ((line _).bind fun _ => Returns.pure _) (Returns.pure _)
      exact modify_touches fun _ => rfl
  | header name value =>
      exact (Returns.get_bind fun _ => Returns.ite (routine (Output.bufferLine_runs _))
        (Returns.pure _)).steps c
  | payload data flush =>
      refine Returns.steps (Returns.get_bind fun _ =>
        Returns.ite ?_ (Returns.ite (body _ _) (Returns.pure _))) c
      exact (line _).bind fun _ => (setState_touches _).bind fun _ => body _ _
  | finish keepConnectionOpen =>
      refine Returns.steps (Returns.get_bind fun _ =>
        Returns.ite ?_ (Returns.ite (ending _) (Returns.pure _))) c
      exact (line _).bind fun _ => ending _
  | error responseCode payload =>
      refine Steps.get_bind (Steps.ite (fun _ => Steps.ite (fun _ => ?_) fun _ => ?_)
        fun _ => Steps.pure _)
      · exact (send404_touches _).bind fun _ _ _ => Steps.pure _
      · exact (sendError_touches _ _ _).bind fun _ _ _ => Steps.pure _

end Seasocks.Connection
