import Seasocks.Proof.EpollInterest
import Seasocks.Proof.Responses

/-!
# Output that waits

Where no response is in progress, everything produced has been sent, or the connection is registered
for write events: every routine that answers ends in a flush, but for the one that answers `HEAD` for an
embedded document.
-/

namespace Seasocks.Connection

open Program Relation

variable {w : World} {c : Connection}

def Flushed (c : Connection) : Prop := Output.Settled c.out ∧ Output.Steady c.out

/-- A response in progress may leave output in the buffer, nothing else does. -/
def Prompt (c : Connection) : Prop :=
  Output.Steady c.out ∧ (Responding c ∨ Output.Settled c.out)

theorem Flushed.prompt (h : Flushed c) : Prompt c := ⟨h.2, Or.inr h.1⟩

theorem Prompt.flushed (h : Prompt c) (hstate : ¬ Responding c) : Flushed c :=
  ⟨h.2.resolve_left hstate, h.1⟩

/-! ### Error pages and documents -/

theorem closeInternal_flushed (hsteady : Output.Steady c.out) :
    Ends closeInternal c (fun _ c' => Flushed c') fun _ _ => False := by
  rw [closeInternal, ends_liftOut]
  exact (Output.closeInternal_settled hsteady.1).mono fun _ _ h => h.2

theorem sendError_flushed (responseCode : ResponseCode) (body : Bytes)
    (hepoll : Output.EpollSucceeds w) (hsteady : Output.Steady c.out) :
    Ends (sendError w responseCode body) c (fun _ c' => Flushed c') fun _ c' => c' = c := by
  rw [sendError, ends_bind, ends_get, ends_ite]
  refine ⟨fun _ => rfl, fun _ => ?_⟩
  exact (Output.sendError_settled responseCode body hepoll hsteady).mono fun _ _ h => h.2

theorem send404_flushed (hepoll : Output.EpollSucceeds w) (hsteady : Output.Steady c.out) :
    Ends (send404 w) c (fun _ c' => Flushed c') fun _ c' => c' = c := by
  rw [send404, ends_bind, ends_get]
  dsimp only
  cases w.embeddedContent c.getRequestUri with
  | some embedded => exact Output.sendData_settled _ _ hepoll hsteady
  | none =>
      dsimp only
      rw [ends_ite]
      refine ⟨fun _ => ?_, fun _ => sendError_flushed _ _ hepoll hsteady⟩
      exact Output.sendData_settled _ _ hepoll hsteady

/-! ### WebSocket output -/

theorem sendHybi_flushed (opcode : HybiPacketDecoder.Opcode) (webSocketResponse : Bytes)
    (hepoll : Output.EpollSucceeds w) (hsteady : Output.Steady c.out) :
    Ends (sendHybi w opcode webSocketResponse) c (fun _ c' => Flushed c') fun _ _ => False := by
  rw [sendHybi, ends_bind, ends_get, ends_bind, ends_liftOut]
  refine (Output.write_false_settled _ hepoll hsteady).mono fun done out h => ?_
  rw [ends_ite]
  refine ⟨fun _ => ?_, fun hrefused => ?_⟩
  · rw [ends_ite]
    refine ⟨fun _ => ?_, fun _ => Output.sendHybiData_settled _ hepoll h.1⟩
    simp only [ends_bind, ends_get, record, ends_modify]
    exact Output.sendHybiData_settled _ hepoll h.1
  · exact ⟨h.2 (by simpa using hrefused), h.1⟩

theorem sendText_flushed (data : Bytes) (hepoll : Output.EpollSucceeds w)
    (hsteady : Output.Steady c.out) :
    Ends (sendText w data) c (fun _ c' => c' = c ∨ Flushed c') fun _ _ => False := by
  rw [sendText, ends_bind, ends_get, ends_ite]
  refine ⟨fun _ => ?_, fun _ => Or.inl rfl⟩
  rw [ends_ite]
  refine ⟨fun _ => ?_, fun _ => ?_⟩
  · rw [ends_bind, ends_liftOut]
    refine (Output.write_false_settled _ hepoll hsteady).mono fun done out h => ?_
    rw [ends_ite]
    refine ⟨fun _ => ?_, fun hrefused => Or.inr ⟨h.2 (by simpa using hrefused), h.1⟩⟩
    rw [ends_bind, ends_liftOut]
    refine (Output.write_false_settled _ hepoll h.1).mono fun done out h => ?_
    rw [ends_ite]
    refine ⟨fun _ => ?_, fun hrefused => Or.inr ⟨h.2 (by simpa using hrefused), h.1⟩⟩
    rw [ends_bind, ends_liftOut]
    exact (Output.write_true_settled _ hepoll h.1).mono fun _ _ h => Or.inr h
  · refine (sendHybi_flushed _ _ hepoll hsteady).mono (fun _ _ h => Or.inr h) fun _ _ => id

theorem wsCall_flushed (call : WsCall) (hepoll : Output.EpollSucceeds w)
    (hsteady : Output.Steady c.out) :
    Ends (wsCall w call) c (fun _ c' => c' = c ∨ Flushed c') fun _ _ => False := by
  cases call with
  | sendText data => exact sendText_flushed data hepoll hsteady
  | sendBinary data =>
      rw [wsCall, sendBinary, ends_bind, ends_get, ends_ite]
      refine ⟨fun _ => ?_, fun _ => Or.inl rfl⟩
      rw [ends_ite]
      refine ⟨fun _ => ?_, fun _ => Or.inl rfl⟩
      exact (sendHybi_flushed _ _ hepoll hsteady).mono (fun _ _ h => Or.inr h) fun _ _ => id
  | close =>
      rw [wsCall, ends_liftOut]
      exact (Output.closeInternal_settled (o := { c.out with shutdownByUser := true })
        hsteady.1).mono fun _ _ h => Or.inr h.2

theorem callHandler_flushed (call : Call) (react : List Entry → List WsCall)
    (hepoll : Output.EpollSucceeds w) (hc : Flushed c) :
    Ends (callHandler w call react) c (fun _ c' => Flushed c') fun _ _ => False := by
  simp only [callHandler, record, ends_bind, ends_modify, ends_get]
  refine ends_forM (fun call _ c hc => ?_) hc
  refine (wsCall_flushed call hepoll hc.2).mono (fun _ c' h => ?_) fun _ _ => id
  rcases h with rfl | h
  · exact hc
  · exact h

theorem callHandler_steady (call : Call) (react : List Entry → List WsCall)
    (hepoll : Output.EpollSucceeds w) (hsteady : Output.Steady c.out) :
    Ends (callHandler w call react) c (fun _ c' => Output.Steady c'.out) fun _ _ => False := by
  simp only [callHandler, record, ends_bind, ends_modify, ends_get]
  refine ends_forM (fun call _ (c : Connection) (hc : Output.Steady c.out) => ?_) hsteady
  refine (wsCall_flushed call hepoll hc).mono (fun _ c' h => ?_) fun _ _ => id
  rcases h with rfl | h
  · exact hc
  · exact h.2

/-- A call of the installed handler, if there is one. -/
theorem callInstalled_flushed {call : HandlerId → Call} {react : HandlerId → List Entry → List WsCall}
    (hepoll : Output.EpollSucceeds w) (hc : Flushed c) (installed : Option HandlerId) :
    Ends (match installed with
      | some handler => callHandler w (call handler) (react handler)
      | none => pure ()) c (fun _ c' => Flushed c') fun _ _ => False := by
  cases installed with
  | none => exact hc
  | some handler => exact callHandler_flushed _ _ hepoll hc

theorem handleWebSocketTextMessage_flushed (message : Bytes) (hepoll : Output.EpollSucceeds w)
    (hc : Flushed c) :
    Ends (handleWebSocketTextMessage w message) c (fun _ c' => Flushed c') fun _ _ => False := by
  rw [handleWebSocketTextMessage, ends_bind, ends_get]
  exact callInstalled_flushed hepoll hc _

theorem handleWebSocketBinaryMessage_flushed (message : Bytes) (hepoll : Output.EpollSucceeds w)
    (hc : Flushed c) :
    Ends (handleWebSocketBinaryMessage w message) c (fun _ c' => Flushed c') fun _ _ => False := by
  rw [handleWebSocketBinaryMessage, ends_bind, ends_get]
  exact callInstalled_flushed hepoll hc _

/-! ### WebSocket input -/

theorem closeIfTooLong_flushed (hc : Flushed c) :
    Ends closeIfTooLong c (fun _ c' => Flushed c') fun _ _ => False := by
  rw [closeIfTooLong, ends_bind, ends_get, ends_ite]
  exact ⟨fun _ => closeInternal_flushed hc.2, fun _ => hc⟩

theorem hixieLoop_flushed (inBuf : Bytes) (fuel messageStart : Nat)
    (hepoll : Output.EpollSucceeds w) (hc : Flushed c) :
    Ends (hixieLoop w inBuf fuel messageStart) c (fun _ c' => Flushed c') fun _ _ => False := by
  induction fuel generalizing messageStart c with
  | zero => exact hc
  | succ fuel ih =>
      rw [hixieLoop]
      cases inBuf.drop messageStart with
      | nil => exact hc
      | cons first rest =>
          dsimp only
          rw [ends_ite]
          refine ⟨fun _ => ?_, fun _ => ?_⟩
          · rw [ends_bind]
            exact (closeInternal_flushed hc.2).mono (fun _ _ h => h) fun _ _ => id
          · cases rest.idxOf? 0xff with
            | none => exact hc
            | some length =>
                simp only [record, ends_bind, ends_modify]
                refine (handleWebSocketTextMessage_flushed _ hepoll ?_).mono (fun _ c' h => ?_)
                  fun _ _ => id
                · exact hc
                · exact ih _ h

theorem handleHixieWebSocket_flushed (hepoll : Output.EpollSucceeds w) (hc : Flushed c) :
    Ends (handleHixieWebSocket w) c (fun _ c' => Flushed c') fun _ _ => False := by
  rw [handleHixieWebSocket, ends_bind, ends_get]
  dsimp only
  rw [ends_ite]
  refine ⟨fun _ => ?_, fun _ => hc⟩
  rw [ends_bind]
  refine (hixieLoop_flushed _ _ _ hepoll hc).mono (fun result c' h => ?_) fun _ _ => id
  cases result with
  | none => exact h
  | some messageStart =>
      dsimp only
      rw [ends_bind, ends_modify]
      exact closeIfTooLong_flushed h

theorem inflateMessage_flushed (decoded : HybiPacketDecoder.Decoded) (hc : Flushed c) :
    Ends (inflateMessage w decoded) c (fun _ c' => Flushed c') fun _ _ => False := by
  have close : Ends (do closeInternal; return none : ConnM (Option Bytes)) c
      (fun _ c' => Flushed c') fun _ _ => False := by
    rw [ends_bind]
    exact (closeInternal_flushed hc.2).mono (fun _ _ h => h) fun _ _ => id
  rw [inflateMessage, ends_ite]
  refine ⟨fun _ => ?_, fun _ => hc⟩
  rw [ends_bind, ends_get, ends_ite]
  refine ⟨fun _ => ?_, fun _ => close⟩
  simp only [record, ends_bind, ends_modify, ends_get]
  cases w.inflate (c.calls ++ [⟨.inflate decoded.messageOut, c.out⟩]) decoded.messageOut with
  | none =>
      dsimp only
      rw [ends_bind]
      exact (closeInternal_flushed hc.2).mono (fun _ _ h => h) fun _ _ => id
  | some decompressed => exact hc

theorem dispatchMessage_flushed (messageState : HybiPacketDecoder.MessageState) (message : Bytes)
    (hepoll : Output.EpollSucceeds w) (hc : Flushed c) :
    Ends (dispatchMessage w messageState message) c (fun _ c' => Flushed c') fun _ _ => False := by
  unfold dispatchMessage
  cases messageState with
  | error | close =>
      dsimp only
      rw [ends_bind]
      exact (closeInternal_flushed hc.2).mono (fun _ _ h => h) fun _ _ => id
  | textMessage =>
      dsimp only
      rw [ends_bind]
      exact (handleWebSocketTextMessage_flushed _ hepoll hc).mono (fun _ _ h => h) fun _ _ => id
  | binaryMessage =>
      dsimp only
      rw [ends_bind]
      exact (handleWebSocketBinaryMessage_flushed _ hepoll hc).mono (fun _ _ h => h) fun _ _ => id
  | ping =>
      dsimp only
      rw [ends_bind]
      exact (sendHybi_flushed _ _ hepoll hc.2).mono (fun _ _ h => h) fun _ _ => id
  | pong | noMessage => exact hc

theorem hybiLoop_flushed (inBuf : Bytes) (fuel messageStart : Nat)
    (hepoll : Output.EpollSucceeds w) (hc : Flushed c) :
    Ends (hybiLoop w inBuf fuel messageStart) c (fun _ c' => Flushed c') fun _ c' => Flushed c' := by
  induction fuel generalizing messageStart c with
  | zero => exact hc
  | succ fuel ih =>
      rw [hybiLoop]
      cases HybiPacketDecoder.decodeNextMessage inBuf messageStart [] false with
      | error f => exact hc
      | ok decoded =>
          have deliver : ∀ c, Flushed c → Ends (hybiTurn w inBuf fuel decoded) c
              (fun _ c' => Flushed c') fun _ c' => Flushed c' := by
            intro c hc
            rw [hybiTurn, ends_bind]
            refine (inflateMessage_flushed decoded hc).mono (fun inflated c₁ h₁ => ?_)
              fun _ _ => False.elim
            cases inflated with
            | none => exact h₁
            | some message =>
                dsimp only
                rw [ends_bind]
                refine (dispatchMessage_flushed _ _ hepoll h₁).mono (fun goOn c₂ h₂ => ?_)
                  fun _ _ => False.elim
                rcases goOn with _ | _ | _
                · exact h₂
                · exact h₂
                · exact ih _ h₂
          dsimp only
          rw [ends_ite]
          refine ⟨fun _ => ?_, fun _ => deliver c hc⟩
          rw [record, ends_bind, ends_modify]
          exact deliver _ hc

theorem handleHybiWebSocket_flushed (hepoll : Output.EpollSucceeds w) (hc : Flushed c) :
    Ends (handleHybiWebSocket w) c (fun _ c' => Flushed c') fun _ c' => Flushed c' := by
  rw [handleHybiWebSocket, ends_bind, ends_get]
  dsimp only
  rw [ends_ite]
  refine ⟨fun _ => ?_, fun _ => hc⟩
  rw [ends_bind]
  refine (hybiLoop_flushed _ _ _ hepoll hc).mono (fun result c' h => ?_) fun _ _ => id
  cases result with
  | none => exact h
  | some numBytesDecoded =>
      dsimp only
      rw [ends_bind, ends_modify]
      refine (closeIfTooLong_flushed ?_).mono (fun _ _ => id) fun _ _ => False.elim
      exact h

theorem handleWebSocketKey3_flushed (hepoll : Output.EpollSucceeds w) (hc : Flushed c) :
    Ends (handleWebSocketKey3 w) c (fun _ c' => Flushed c') fun _ c' => Flushed c' := by
  rw [handleWebSocketKey3, ends_bind, ends_get, ends_ite]
  refine ⟨fun _ => ?_, fun _ => hc⟩
  rw [theRequest, ends_bind, ends_bind, ends_get]
  cases c.request with
  | none => exact hc
  | some request =>
      simp only [ends_pure, record, ends_bind, ends_modify, ends_liftOut]
      refine (Output.hixieHandshake_settled _ _ _ hepoll hc.2).mono fun _ out hout => ?_
      rw [startHixie, ends_bind, ends_modify, ends_bind, ends_get]
      refine (callInstalled_flushed hepoll ?_ _).mono (fun _ _ => id) fun _ _ => False.elim
      exact hout

/-! ### Responses -/

theorem writeChunkHeader_steady (size : Nat) (hsteady : Output.Steady c.out) :
    Ends (writeChunkHeader w size) c
      (fun _ c' => c'.state = c.state ∧ Output.Steady c'.out) fun _ _ => False := by
  simp only [writeChunkHeader, ends_bind, ends_get, ends_set, ends_liftOut, ends_pure]
  exact (Output.write_steady _ _ hsteady).mono fun _ _ h => ⟨trivial, h⟩

theorem payloadBody_prompt (data : Bytes) (flush : Bool) (hstate : Sending c)
    (hsteady : Output.Steady c.out) :
    Ends (payloadBody w data flush) c (fun _ c' => Prompt c') fun _ _ => False := by
  rw [payloadBody, ends_bind, ends_get, ends_ite]
  constructor
  · intro _
    rw [ends_bind]
    refine (writeChunkHeader_steady _ hsteady).mono (fun _ c₁ h₁ => ?_) fun _ _ => id
    rw [ends_bind, ends_liftOut]
    refine (Output.write_steady _ _ h₁.2).mono fun _ out hout => ⟨hout, Or.inl (Or.inr ?_)⟩
    unfold Sending at *
    rw [h₁.1]
    exact hstate
  · intro _
    rw [ends_bind, ends_liftOut]
    exact (Output.write_steady _ _ hsteady).mono fun _ out hout => ⟨hout, Or.inl (Or.inr hstate)⟩

theorem finishBody_prompt (keepConnectionOpen : Bool) (hepoll : Output.EpollSucceeds w)
    (hsteady : Output.Steady c.out) :
    Ends (finishBody w keepConnectionOpen) c (fun _ c' => Prompt c') fun _ _ => False := by
  have close : ∀ c, Output.Steady c.out → Ends (do
      let _ ← liftOut (Output.flush w)
      if !keepConnectionOpen then
        liftOut Output.closeWhenEmpty
      modify fun c => { c with state := .readingHeaders, response := none } : ConnM Unit) c
      (fun _ c' => Prompt c') fun _ _ => False := by
    intro c hsteady
    rw [ends_bind, ends_liftOut]
    refine (Output.flush_steady hepoll hsteady).mono fun _ out hout => ?_
    rw [ends_ite]
    refine ⟨fun _ => ?_, fun _ => ⟨hout.2.1, Or.inr hout.1⟩⟩
    rw [ends_bind, ends_liftOut]
    exact (Output.closeWhenEmpty_settled hout.1 hout.2.1).mono fun _ _ h => ⟨h.2.2, Or.inr h.2.1⟩
  rw [finishBody, ends_bind, ends_get, ends_ite]
  refine ⟨fun _ => ?_, fun _ => close c hsteady⟩
  rw [ends_bind]
  refine (writeChunkHeader_steady 0 hsteady).mono (fun _ c₁ h₁ => ?_) fun _ _ => id
  rw [ends_bind, ends_liftOut]
  exact (Output.write_steady _ _ h₁.2).mono fun _ out hout => close _ hout

theorem begin_prompt (responseCode : ResponseCode) (encoding : TransferEncoding)
    (hepoll : Output.EpollSucceeds w) (hc : Prompt c) :
    Ends (begin w responseCode encoding) c (fun _ c' => Prompt c') fun _ _ => False := by
  rw [begin, ends_bind, ends_get, ends_ite]
  refine ⟨fun _ => ?_, fun _ => hc⟩
  simp only [setState, ends_bind, ends_modify, ends_liftOut, ends_ite, ends_pure]
  refine (hc.1.lines hepoll (Output.bufferResponseAndCommonHeaders_runs _)).mono fun _ out hout => ?_
  refine ⟨fun _ => ?_, fun _ => ⟨hout, Or.inl (Or.inr (Or.inl rfl))⟩⟩
  exact (hout.lines hepoll (Output.bufferText_runs _)).mono fun _ _ h =>
    ⟨h, Or.inl (Or.inr (Or.inl rfl))⟩

theorem payload_prompt (data : Bytes) (flush : Bool) (hepoll : Output.EpollSucceeds w)
    (hc : Prompt c) :
    Ends (payload w data flush) c (fun _ c' => Prompt c') fun _ _ => False := by
  rw [payload, ends_bind, ends_get]
  simp only [ends_ite, ends_bind, ends_liftOut, setState, ends_modify, ends_pure]
  refine ⟨fun _ => ?_, fun _ => ⟨fun hstate => ?_, fun _ => hc⟩⟩
  · refine (hc.1.lines hepoll (Output.bufferText_runs _)).mono fun _ out hout => ?_
    exact payloadBody_prompt _ _ (Or.inr rfl) hout
  · exact payloadBody_prompt _ _ (Or.inr hstate) hc.1

theorem finish_prompt (keepConnectionOpen : Bool) (hepoll : Output.EpollSucceeds w)
    (hc : Prompt c) :
    Ends (finish w keepConnectionOpen) c (fun _ c' => Prompt c') fun _ _ => False := by
  rw [finish, ends_bind, ends_get]
  simp only [ends_ite, ends_bind, ends_liftOut, ends_pure]
  refine ⟨fun _ => ?_, fun _ => ⟨fun _ => finishBody_prompt _ hepoll hc.1, fun _ => hc⟩⟩
  refine (hc.1.lines hepoll (Output.bufferText_runs _)).mono fun _ out hout => ?_
  exact finishBody_prompt _ hepoll hout

theorem error_prompt (responseCode : ResponseCode) (body : Bytes) (hepoll : Output.EpollSucceeds w)
    (hc : Prompt c) :
    Ends (error w responseCode body) c (fun _ c' => Prompt c') fun _ c' => Prompt c' := by
  have same : ∀ c', c' = c → Prompt c' := by
    rintro _ rfl
    exact hc
  rw [error, ends_bind, ends_get]
  simp only [ends_ite, ends_bind, ends_pure]
  refine ⟨fun _ => ⟨fun _ => ?_, fun _ => ?_⟩, fun _ => hc⟩
  · exact (send404_flushed hepoll hc.1).mono (fun _ _ h => h.prompt) fun _ => same
  · exact (sendError_flushed _ _ hepoll hc.1).mono (fun _ _ h => h.prompt) fun _ => same

theorem writerCall_prompt (call : WriterCall) (hepoll : Output.EpollSucceeds w) (hc : Prompt c) :
    Ends (writerCall w call) c (fun _ c' => Prompt c') fun _ c' => Prompt c' := by
  cases call with
  | begin responseCode encoding =>
      exact (begin_prompt responseCode encoding hepoll hc).mono (fun _ _ => id) fun _ _ => False.elim
  | header name value =>
      rw [writerCall, header, ends_bind, ends_get]
      simp only [ends_ite, ends_bind, ends_liftOut, ends_pure]
      refine ⟨fun hstate => ?_, fun _ => hc⟩
      refine (hc.1.lines hepoll (Output.bufferLine_runs _)).mono fun _ out hout => ?_
      exact ⟨hout, Or.inl (Or.inr (Or.inl hstate))⟩
  | payload data flush =>
      exact (payload_prompt data flush hepoll hc).mono (fun _ _ => id) fun _ _ => False.elim
  | finish keepConnectionOpen =>
      exact (finish_prompt keepConnectionOpen hepoll hc).mono (fun _ _ => id) fun _ _ => False.elim
  | error responseCode body => exact error_prompt responseCode body hepoll hc

theorem handleResponse_prompt (response : Response) (hepoll : Output.EpollSucceeds w)
    (hc : Flushed c) :
    Ends (handleResponse w response) c (fun _ c' => Prompt c') fun _ c' => Prompt c' := by
  rw [handleResponse, ends_bind, ends_get, ends_ite]
  refine ⟨fun _ => hc.prompt, fun _ => ?_⟩
  simp only [ends_bind, ends_modify, ends_pure]
  refine ends_forM (fun call _ c hc => writerCall_prompt call hepoll hc) ?_
  exact ⟨hc.2, Or.inl (Or.inl rfl)⟩

/-! ### Requests -/

theorem sendStaticData_flushed (hepoll : Output.EpollSucceeds w) (hc : Flushed c) :
    Ends (sendStaticData w) c (fun _ c' => Flushed c') fun _ c' => Flushed c' := by
  rw [sendStaticData, ends_bind, ends_get]
  dsimp only
  cases (trimQuery (w.staticPath ++ c.getRequestUri)).getLast? with
  | none => exact hc
  | some last =>
      dsimp only
      rw [record, ends_bind, ends_modify]
      generalize hopened : ({ c with calls := _ } : Connection) = c₁
      have hc₁ : Flushed c₁ := hopened ▸ hc
      have same : ∀ c', c' = c₁ → Flushed c' := by
        rintro _ rfl
        exact hc₁
      cases w.openFile c.calls (if last = 47 then _ else _) with
      | none => exact (send404_flushed hepoll hc₁.2).mono (fun _ _ => id) fun _ => same
      | some file =>
          dsimp only
          split
          · exact hc₁
          · exact (sendError_flushed _ _ hepoll hc₁.2).mono (fun _ _ => id) fun _ => same
          · rw [liftChecked, ends_bind, ends_liftOut]
            refine (Output.sendFile_settled _ _ _ hepoll hc₁.2).mono fun result out hout => ?_
            cases result with
            | ok sent => exact hout
            | error f => exact hout

theorem handleHybiHandshake_flushed (webSocketVersion : Int) (webSocketKey : Bytes)
    (hepoll : Output.EpollSucceeds w) (hc : Flushed c) :
    Ends (handleHybiHandshake w webSocketVersion webSocketKey) c (fun _ c' => Flushed c')
      fun _ c' => Flushed c' := by
  rw [handleHybiHandshake, ends_ite]
  constructor
  · intro _
    refine (sendError_flushed _ _ hepoll hc.2).mono (fun _ _ => id) fun _ c' hsame => ?_
    rw [hsame]
    exact hc
  · intro _
    rw [theRequest, ends_bind, ends_bind, ends_get]
    cases c.request with
    | none => exact hc
    | some request =>
        simp only [ends_pure, ends_bind, ends_get, ends_liftOut]
        refine (Output.hybiHandshake_settled _ _ _ _ hepoll hc.2).mono fun _ out hout => ?_
        cases c.webSocketHandler with
        | none => exact hout
        | some handler =>
            dsimp only
            rw [ends_bind]
            refine (callHandler_flushed (.onConnect handler) (fun calls => w.onConnect calls handler)
              hepoll ?_).mono (fun _ _ h => h) fun _ _ => False.elim
            exact hout

theorem handleUpgrade_flushed (request : PageRequest) (hepoll : Output.EpollSucceeds w)
    (hc : Flushed c) :
    Ends (handleUpgrade w request) c (fun _ c' => Flushed c') fun _ c' => Flushed c' := by
  rw [handleUpgrade, ends_bind, ends_modify]
  generalize hinstalled : ({ c with webSocketHandler := _ } : Connection) = c₁
  have hc₁ : Flushed c₁ := hinstalled ▸ hc
  have same : ∀ c', c' = c₁ → Flushed c' := by
    rintro _ rfl
    exact hc₁
  cases stoi (request.getHeader (ascii "Sec-WebSocket-Version")) with
  | error _ => exact (sendError_flushed _ _ hepoll hc₁.2).mono (fun _ _ => id) fun _ => same
  | ok webSocketVersion =>
      dsimp only
      rw [ends_ite]
      refine ⟨fun _ => (send404_flushed hepoll hc₁.2).mono (fun _ _ => id) fun _ => same, fun _ => ?_⟩
      rw [ends_ite]
      refine ⟨fun _ => ?_, fun _ => handleHybiHandshake_flushed _ _ hepoll hc₁⟩
      simp only [setState, ends_bind, ends_modify, ends_pure]
      exact hc₁

theorem handlePageRequest_prompt (hepoll : Output.EpollSucceeds w) (hc : Flushed c) :
    Ends (handlePageRequest w) c (fun _ c' => Prompt c') fun _ c' => Prompt c' := by
  rw [handlePageRequest, theRequest, ends_bind, ends_bind, ends_get]
  cases c.request with
  | none => exact hc.prompt
  | some request =>
      simp only [ends_pure, record, ends_bind, ends_get, ends_modify]
      generalize hhandled : ({ c with calls := _ } : Connection) = c₁
      have hc₁ : Flushed c₁ := hhandled ▸ hc
      have page : ∀ responseCode body, Ends (sendError w responseCode body) c₁
          (fun _ c' => Prompt c') fun _ c' => Prompt c' := by
        intro responseCode body
        refine (sendError_flushed _ _ hepoll hc₁.2).mono (fun _ _ h => h.prompt) fun _ c' hsame => ?_
        rw [hsame]
        exact hc₁.prompt
      cases w.handle c.calls request with
      | throws what => exact page _ _
      | throwsUnknown => exact page _ _
      | response response => exact handleResponse_prompt response hepoll hc₁
      | unhandled =>
          dsimp only
          rw [ends_ite]
          constructor
          · intro _
            exact (handleUpgrade_flushed request hepoll hc₁).mono (fun _ _ h => h.prompt)
              fun _ _ h => h.prompt
          · intro _
            exact (sendStaticData_flushed hepoll hc₁).mono (fun _ _ h => h.prompt)
              fun _ _ h => h.prompt

/-- A `HEAD` request for an embedded document, as the block it arrives in. -/
def EmbeddedHead (w : World) (block : Bytes) : Prop :=
  ∃ requestUri headers memory,
    RequestParser.block.run (block.take (block.length - 2)) = .ok (.head, requestUri, headers) memory ∧
      isUpgrade headers = false ∧ w.embeddedContent requestUri ≠ none

def NoEmbeddedHead (w : World) (calls : List Entry) : Prop :=
  ∀ block out, ⟨.headers block, out⟩ ∈ calls → ¬ EmbeddedHead w block

theorem NoEmbeddedHead.of_grown {calls calls' : List Entry} (h : NoEmbeddedHead w calls')
    (hgrow : calls <+: calls') : NoEmbeddedHead w calls :=
  fun block out hmem => h block out (hgrow.subset hmem)

theorem parsePerMessageDeflateHeader_flushed (header : Bytes) (hc : Flushed c) :
    Ends (parsePerMessageDeflateHeader header) c (fun _ c' => Flushed c') fun _ _ => False := by
  refine ends_forM (fun extField _ c hc => ?_) hc
  rw [ends_ite]
  refine ⟨fun _ => ?_, fun _ => hc⟩
  simp only [record, ends_bind, ends_modify]
  exact hc

theorem processRequest_prompt {verb : Verb} {requestUri : Bytes} (headers : HeaderMap)
    (hepoll : Output.EpollSucceeds w) (hc : Flushed c)
    (hhead : ¬ (verb = .head ∧ w.embeddedContent requestUri ≠ none)) :
    Ends (processRequest w verb requestUri headers) c (fun _ c' => Prompt c')
      fun _ c' => Prompt c' := by
  simp only [processRequest, ends_bind, ends_modify]
  split
  · rw [ends_liftOut]
    exact (Output.sendData_settled _ _ hepoll hc.2).mono fun _ out hout => Flushed.prompt hout
  · rename_i embedded hembedded
    exact absurd ⟨rfl, by simp [hembedded]⟩ hhead
  · generalize hcreated : ({ c with request := _ } : Connection) = c₁
    have hc₁ : Flushed c₁ := hcreated ▸ hc
    rw [ends_ite, ends_ite]
    refine ⟨fun _ => ?_, fun _ => ⟨fun _ => handlePageRequest_prompt hepoll hc₁, fun _ => ?_⟩⟩
    · refine (sendError_flushed _ _ hepoll hc₁.2).mono (fun _ _ h => h.prompt) fun _ c' hsame => ?_
      rw [hsame]
      exact hc₁.prompt
    · simp only [setState, ends_bind, ends_modify, ends_pure]
      exact Flushed.prompt hc₁

theorem processParsed_prompt {verb : Verb} {requestUri : Bytes} {headers : HeaderMap}
    (hepoll : Output.EpollSucceeds w) (hc : Flushed c)
    (hhead : isUpgrade headers = false →
      ¬ (verb = .head ∧ w.embeddedContent requestUri ≠ none)) :
    Ends (processParsed w verb requestUri headers) c (fun _ c' => Prompt c')
      fun _ c' => Prompt c' := by
  have upgrade : ∀ c, Flushed c → Ends (processRequest w .webSocket requestUri headers) c
      (fun _ c' => Prompt c') fun _ c' => Prompt c' := fun c hc =>
    processRequest_prompt headers hepoll hc (by simp)
  rw [processParsed, ends_ite]
  refine ⟨fun _ => ?_, fun hplain => processRequest_prompt headers hepoll hc (hhead (by simpa using hplain))⟩
  rw [ends_ite]
  refine ⟨fun _ => ?_, fun _ => ?_⟩
  · refine (sendError_flushed _ _ hepoll hc.2).mono (fun _ _ h => h.prompt) fun _ c' hsame => ?_
    rw [hsame]
    exact hc.prompt
  · rw [ends_bind, ends_modify, ends_ite]
    generalize hinstalled : ({ c with webSocketHandler := _ } : Connection) = c₁
    have hc₁ : Flushed c₁ := hinstalled ▸ hc
    refine ⟨fun _ => ?_, fun _ => ?_⟩
    · refine (send404_flushed hepoll hc₁.2).mono (fun _ _ h => h.prompt) fun _ c' hsame => ?_
      rw [hsame]
      exact hc₁.prompt
    · rw [ends_ite]
      refine ⟨fun _ => ?_, fun _ => upgrade c₁ hc₁⟩
      rw [ends_bind]
      exact (parsePerMessageDeflateHeader_flushed _ hc₁).mono (fun _ c₂ h₂ => upgrade c₂ h₂)
        fun _ _ => False.elim

/-! ### Events -/

/-- As long as no `HEAD` request for an embedded document has been taken, the output is prompt. -/
def Tidy (w : World) (c : Connection) : Prop := NoEmbeddedHead w c.calls → Prompt c

theorem tidy_of_moves {α : Type} {m : ConnM α} (h : Steps (Move w) Thrown m c)
    (hprompt : NoEmbeddedHead w c.calls →
      Ends m c (fun _ c' => Prompt c') fun _ c' => Prompt c') :
    Ends m c (fun _ c' => Tidy w c') fun _ c' => Tidy w c' := by
  by_cases hhead : NoEmbeddedHead w c.calls
  · exact (hprompt hhead).mono (fun _ _ h _ => h) fun _ _ h _ => h
  · have hgrow : ∀ c', Moves w c c' → c.calls <+: c'.calls := fun c' hsteps =>
      invariant_of_steps (fun c' => c.calls <+: c'.calls)
        (fun _ _ hbegins hmove => hbegins.trans hmove.calls_grow) hsteps List.prefix_rfl
    refine Ends.mono h (fun _ c' hsteps hnone => ?_) fun e c' hends hnone => ?_
    · exact absurd (hnone.of_grown (hgrow c' hsteps)) hhead
    · obtain ⟨c₁, hsteps, hlast⟩ := hends
      exact absurd (hnone.of_grown ((hgrow c₁ hsteps).trans hlast.calls_grow)) hhead

theorem tidy_of_takes {α : Type} {m : ConnM α} (h : Steps (Take w) Thrown m c)
    (hprompt : NoEmbeddedHead w c.calls →
      Ends m c (fun _ c' => Prompt c') fun _ c' => Prompt c') :
    Ends m c (fun _ c' => Tidy w c') fun _ c' => Tidy w c' :=
  tidy_of_moves (h.mono fun _ _ => And.left) hprompt

theorem closeInternal_tidy (hc : Tidy w c) :
    Ends closeInternal c (fun _ c' => Tidy w c') fun _ c' => Tidy w c' :=
  tidy_of_takes (closeInternal_takes c) fun hhead =>
    (closeInternal_flushed (hc hhead).1).mono (fun _ _ h => h.prompt) fun _ _ => False.elim

theorem processHeaders_prompt {last : Nat} (hepoll : Output.EpollSucceeds w) (hc : Flushed c)
    (hhead : ∀ requestUri headers memory,
      RequestParser.block.run (c.inBuf.take last) = .ok (.head, requestUri, headers) memory →
      isUpgrade headers = false → w.embeddedContent requestUri = none) :
    Ends (processHeaders w last) c (fun _ c' => Prompt c') fun _ c' => Prompt c' := by
  rw [processHeaders, ends_bind, ends_get]
  cases hrun : RequestParser.block.run (c.inBuf.take last) with
  | ok parsed memory =>
      obtain ⟨verb, requestUri, headers⟩ := parsed
      dsimp only
      rw [ends_bind, ends_set]
      refine processParsed_prompt hepoll hc fun hplain => ?_
      rintro ⟨rfl, hembedded⟩
      exact hembedded (hhead requestUri headers memory hrun hplain)
  | error stop memory =>
      cases stop with
      | fault f => exact hc.prompt
      | reject responseCode reason =>
          dsimp only
          rw [ends_bind, ends_set]
          refine Ends.mono (sendError_flushed _ _ hepoll ?_) (fun _ _ h => h.prompt) ?_
          · exact hc.2
          · rintro _ _ rfl
            exact hc.prompt

theorem handleHeaders_tidy (hepoll : Output.EpollSucceeds w) (hstate : c.state = .readingHeaders)
    (hc : Tidy w c) :
    Ends (handleHeaders w) c (fun _ c' => Tidy w c') fun _ c' => Tidy w c' := by
  have hreading : ¬ Responding c := not_responding hstate (by decide)
  rw [handleHeaders, ends_bind, ends_get]
  cases hfind : find (crlf ++ crlf) c.inBuf with
  | none =>
      dsimp only
      rw [ends_ite]
      refine ⟨fun _ => ?_, fun _ => hc⟩
      rw [ends_bind]
      refine tidy_of_takes (sendError_takes _ _ _) fun hhead => ?_
      refine (sendError_flushed _ _ hepoll (hc hhead).1).mono (fun _ _ h => h.prompt) ?_
      rintro _ _ rfl
      exact hc hhead
  | some i =>
      simp only [record, ends_bind, ends_modify]
      have hblock : (c.inBuf.take (i + 4)).take ((c.inBuf.take (i + 4)).length - 2)
          = c.inBuf.take (i + 2) := by
        have hlength := length_of_find hfind (by decide)
        have hfour : (crlf ++ crlf).length = 4 := rfl
        rw [List.take_take, List.length_take]
        congr 1
        omega
      refine Ends.mono (tidy_of_takes (processHeaders_takes _ hstate (justTaken_concat rfl)) ?_) ?_
        fun _ _ => id
      · intro hhead
        have hflushed : Flushed c := (hc (hhead.of_grown (List.prefix_append _ _))).flushed hreading
        refine processHeaders_prompt hepoll hflushed fun requestUri headers memory hparse hplain => ?_
        by_contra hembedded
        refine hhead (c.inBuf.take (i + 4)) c.out (by simp) ⟨requestUri, headers, memory, ?_⟩
        rw [hblock]
        exact ⟨hparse, hplain, hembedded⟩
      · intro accepted c₁ hc₁
        rw [ends_ite]
        refine ⟨fun _ => ?_, fun _ => ?_⟩
        · rw [ends_bind, ends_modify, ends_pure]
          exact hc₁
        · rw [ends_bind]
          exact (closeInternal_tidy hc₁).mono (fun _ _ h => h) fun _ _ => id

theorem handleBufferingPostData_tidy (hepoll : Output.EpollSucceeds w)
    (hstate : c.state = .bufferingPostData) (hc : Tidy w c) :
    Ends (handleBufferingPostData w) c (fun _ c' => Tidy w c') fun _ c' => Tidy w c' := by
  refine tidy_of_takes (handleBufferingPostData_takes hstate) fun hhead => ?_
  have hprompt := hc hhead
  have hflushed := hprompt.flushed (not_responding hstate (by decide))
  rw [handleBufferingPostData, ends_bind, ends_get, theRequest, ends_bind, ends_bind, ends_get]
  cases c.request with
  | none => exact hprompt
  | some request =>
      rw [ends_pure]
      cases request.consumeContent c.inBuf with
      | none => exact hprompt
      | some consumed =>
          obtain ⟨request', inBuf⟩ := consumed
          simp only [record, ends_bind, ends_modify]
          refine Ends.mono (handlePageRequest_prompt hepoll ?_) ?_ fun _ _ => id
          · exact hflushed
          · intro accepted c₁ hc₁
            rw [ends_ite]
            refine ⟨fun _ => ?_, fun _ => hc₁⟩
            exact (closeInternal_flushed hc₁.1).mono (fun _ _ h => h.prompt) fun _ _ => False.elim

theorem handleNewDataFrom_tidy (fuel : Nat) (hepoll : Output.EpollSucceeds w) (hc : Tidy w c) :
    Ends (handleNewDataFrom w fuel) c (fun _ c' => Tidy w c') fun _ c' => Tidy w c' := by
  induction fuel generalizing c with
  | zero => exact hc
  | succ fuel ih =>
      have hflushed : ¬ Responding c → NoEmbeddedHead w c.calls → Flushed c :=
        fun hstate hhead => (hc hhead).flushed hstate
      have messages : ∀ {m : ConnM Unit}, Steps (Take w) Thrown m c → ¬ Responding c →
          (Flushed c → Ends m c (fun _ c' => Flushed c') fun _ c' => Flushed c') →
          Ends m c (fun _ c' => Tidy w c') fun _ c' => Tidy w c' := by
        intro m htakes hstate hm
        refine tidy_of_takes htakes fun hhead => ?_
        exact (hm (hflushed hstate hhead)).mono (fun _ _ h => h.prompt) fun _ _ h => h.prompt
      rw [handleNewDataFrom, ends_bind, ends_get]
      cases hstate : c.state with
      | readingHeaders =>
          dsimp only
          rw [ends_bind]
          refine (handleHeaders_tidy hepoll hstate hc).mono (fun goOn c₁ hc₁ => ?_) fun _ _ => id
          rw [ends_ite]
          exact ⟨fun _ => ih hc₁, fun _ => hc₁⟩
      | readingWebSocketKey3 =>
          exact messages (handleWebSocketKey3_takes hstate) (not_responding hstate (by decide))
            (handleWebSocketKey3_flushed hepoll)
      | handlingHixieWebSocket =>
          exact messages (handleHixieWebSocket_takes hstate) (not_responding hstate (by decide))
            fun hc => (handleHixieWebSocket_flushed hepoll hc).mono (fun _ _ => id)
              fun _ _ => False.elim
      | handlingHybiWebSocket =>
          exact messages (handleHybiWebSocket_takes hstate) (not_responding hstate (by decide))
            (handleHybiWebSocket_flushed hepoll)
      | bufferingPostData => exact handleBufferingPostData_tidy hepoll hstate hc
      | awaitingResponseBegin | sendingResponseHeaders | sendingResponseBody | invalid => exact hc

theorem handleDataReadyForRead_tidy (result : ReadResult) (hepoll : Output.EpollSucceeds w)
    (hc : Tidy w c) :
    Ends (handleDataReadyForRead w result) c (fun _ c' => Tidy w c') fun _ c' => Tidy w c' := by
  rw [handleDataReadyForRead, ends_bind, ends_get, ends_ite]
  refine ⟨fun _ => ?_, fun _ => hc⟩
  cases result with
  | error => exact hc
  | endOfStream =>
      simp only [ends_bind, ends_set]
      refine closeInternal_tidy ?_
      exact hc
  | data received =>
      simp only [ends_bind, ends_set]
      rw [handleNewData, ends_bind, ends_get]
      refine handleNewDataFrom_tidy _ hepoll ?_
      exact hc

theorem destroy_prompt (hepoll : Output.EpollSucceeds w) (hsteady : Output.Steady c.out) :
    Ends (destroy w) c (fun _ c' => Prompt c') fun _ _ => False := by
  have close : ∀ c, Output.Steady c.out → Ends (do
      liftOut closeFd
      modify fun c => { c with webSocketHandler := none, alive := false } : ConnM Unit) c
      (fun _ c' => Prompt c') fun _ _ => False := by
    intro c hsteady
    simp only [ends_bind, ends_liftOut, ends_modify, closeFd, Output.record, after_bind, after_get,
      after_ite, after_modify]
    have hclosed : ∀ log, Prompt
        { c with
          out := { c.out with fd := false, log := log }
          webSocketHandler := none
          alive := false } := by
      intro log
      have hsettled : Output.Settled { c.out with fd := false, log := log } := Or.inl rfl
      exact ⟨Output.steady_of_settled hsteady.1 hsettled, Or.inr hsettled⟩
    exact ⟨fun _ => hclosed _, fun _ => hclosed _⟩
  have cancel : Ends cancelResponse c (fun _ c' => Output.Steady c'.out) fun _ _ => False := by
    simp only [cancelResponse, record, ends_bind, ends_get, ends_ite, ends_modify, ends_pure]
    exact ⟨fun _ => hsteady, fun _ => hsteady⟩
  rw [destroy, ends_bind]
  refine cancel.mono (fun _ c₁ h₁ => ?_) fun _ _ => id
  rw [ends_bind, ends_get]
  cases c₁.webSocketHandler with
  | none => exact close c₁ h₁
  | some handler =>
      dsimp only
      rw [ends_bind]
      exact (callHandler_steady (.onDisconnect handler) _ hepoll h₁).mono
        (fun _ c₂ h₂ => close c₂ h₂) fun _ _ => id

theorem step_tidy (event : Event) (hepoll : Output.EpollSucceeds w) (hc : Tidy w c) :
    Ends (step w event) c (fun _ c' => Tidy w c') fun _ c' => Tidy w c' := by
  have moves := step_moves (w := w) event c
  rw [step, ends_bind, ends_get]
  cases event with
  | readable result =>
      dsimp only
      rw [ends_ite]
      exact ⟨fun _ => handleDataReadyForRead_tidy result hepoll hc, fun _ => hc⟩
  | writable =>
      refine tidy_of_moves moves fun hhead => ?_
      rw [ends_ite]
      refine ⟨fun _ => ?_, fun _ => hc hhead⟩
      rw [ends_liftOut]
      exact (Output.handleDataReadyForWrite_settled hepoll (hc hhead).1).mono fun _ _ h =>
        ⟨h.2, Or.inr h.1⟩
  | writer call =>
      refine tidy_of_moves moves fun hhead => ?_
      rw [ends_ite, ends_ite]
      refine ⟨fun _ => ⟨fun _ => ?_, fun _ => hc hhead⟩, fun _ => hc hhead⟩
      exact writerCall_prompt call hepoll (hc hhead)
  | socket call =>
      refine tidy_of_moves moves fun hhead => ?_
      rw [ends_ite]
      refine ⟨fun _ => ?_, fun _ => hc hhead⟩
      refine (wsCall_flushed call hepoll (hc hhead).1).mono (fun _ c' h => ?_) fun _ _ => False.elim
      rcases h with rfl | h
      · exact hc hhead
      · exact h.prompt
  | destroy =>
      refine tidy_of_moves moves fun hhead => ?_
      rw [ends_ite]
      refine ⟨fun _ => ?_, fun _ => hc hhead⟩
      exact (destroy_prompt hepoll (hc hhead).1).mono (fun _ _ => id) fun _ _ => False.elim

/-! ### Runs -/

/-- What every operation on the output side preserves, and what holds without a descriptor, holds
throughout. -/
theorem Move.output (inv : Output → Prop) (hstep : ∀ o o', inv o → Output.OpStep w o o' → inv o')
    (hclosed : ∀ o : Output, o.fd = false → inv o) {c' : Connection} (h : Move w c c')
    (hc : inv c.out) : inv c'.out := by
  rcases h.out_steps with hout | ⟨-, hfd⟩
  · exact invariant_of_steps inv hstep hout hc
  · exact hclosed _ hfd

theorem run_interested {events : List Event} (h : run w events fresh = .ok c)
    (hopen : c.closed = false) : Output.Interested c.out := by
  refine run_invariant (fun c => c.out.closed = false → Output.Interested c.out)
    (fun c c' hc hmove => ?_) (fun e c c' hc hthrown => ?_) h (fun _ => rfl) hopen
  · refine Move.output (fun o => o.closed = false → Output.Interested o) ?_ ?_ hmove hc
    · intro o o' ho hstep hopen
      refine Output.OpStep.interested hstep (ho ?_)
      by_contra hclosed
      rw [Output.OpStep.closed hstep (by simpa using hclosed)] at hopen
      cases hopen
    · intro o hfd hopen
      rw [Output.closed, hfd] at hopen
      cases hopen
  · cases hthrown with
    | fault f => exact hc
    | range e path hstate hrequest hcalls hrange => exact hc

/-- **No stranded output.** In every run in which no `HEAD` request for an embedded document is taken,
output that waits in the buffer of an open connection without a response in progress is waited for. -/
theorem run_prompt {events : List Event} (h : run w events fresh = .ok c)
    (hepoll : Output.EpollSucceeds w) (hhead : NoEmbeddedHead w c.calls) (hopen : c.closed = false) :
    (¬ Responding c → c.out.outBuf ≠ [] → c.out.registeredForWriteEvents = true) ∧
    c.out.registeredForWriteEvents = Output.epollOut c.out.log := by
  refine ⟨fun hstate hwaiting => ?_, run_interested h hopen⟩
  have htidy : Tidy w c := by
    refine run_induction (Tidy w) (fun event c hc => step_tidy event hepoll hc) h fun _ => ?_
    have hsettled : Output.Settled fresh.out := Or.inr (Or.inl rfl)
    exact ⟨Output.steady_of_settled rfl hsettled, Or.inr hsettled⟩
  rcases (htidy hhead).2.resolve_left hstate with hclosed | hempty | hregistered
  · rw [closed, hclosed] at hopen
    cases hopen
  · exact absurd hempty hwaiting
  · exact hregistered

/-- An error page that the socket does not take yet. -/
theorem run_prompt_blocked :
    ∃ c, run { World.plain with send := fun _ _ => .wouldBlock }
        [.readable (.data ⟨ascii "GET / HTTP/1.1\r\n\r\n", by decide⟩)] fresh = .ok c ∧
      c.out.outBuf ≠ [] ∧ c.out.registeredForWriteEvents = true := by
  have hrun : (do
      let c ← run { World.plain with send := fun _ _ => .wouldBlock }
        [.readable (.data ⟨ascii "GET / HTTP/1.1\r\n\r\n", by decide⟩)] fresh
      return (c.closed, c.state, decide (c.out.outBuf = [])))
      = .ok (false, .readingHeaders, false) := by decide +kernel
  obtain ⟨c, hc, hrun⟩ := ok_of_bind_eq_ok hrun
  injection hrun with hrun
  obtain ⟨hopen, hrest⟩ := Prod.mk.inj hrun
  obtain ⟨hstate, hwaiting⟩ := Prod.mk.inj hrest
  have hwaiting : c.out.outBuf ≠ [] := of_decide_eq_false hwaiting
  have hhead : NoEmbeddedHead { World.plain with send := fun _ _ => .wouldBlock } c.calls := by
    rintro block out - ⟨requestUri, headers, memory, -, -, hembedded⟩
    exact hembedded rfl
  have hprompt := run_prompt hc (fun _ _ => rfl) hhead hopen
  exact ⟨c, hc, hwaiting, hprompt.1 (not_responding hstate (by decide)) hwaiting⟩

/-- The answer to a `HEAD` request for an embedded document stays in the buffer. -/
theorem not_prompt_of_head :
    Output.EpollSucceeds World.embedded ∧
    ∃ c, run World.embedded
        [.readable (.data ⟨ascii "HEAD / HTTP/1.1\r\n\r\n", by decide⟩)] fresh = .ok c ∧
      c.closed = false ∧ c.state = .readingHeaders ∧ c.out.outBuf ≠ [] ∧
      c.out.registeredForWriteEvents = false := by
  have hrun : (do
      let c ← run World.embedded
        [.readable (.data ⟨ascii "HEAD / HTTP/1.1\r\n\r\n", by decide⟩)] fresh
      return decide (c.closed = false ∧ c.state = State.readingHeaders ∧ c.out.outBuf ≠ [] ∧
        c.out.registeredForWriteEvents = false)) = .ok true := by decide +kernel
  obtain ⟨c, hc, hrun⟩ := ok_of_bind_eq_ok hrun
  injection hrun with hrun
  exact ⟨fun _ _ => rfl, c, hc, of_decide_eq_true hrun⟩

end Seasocks.Connection
