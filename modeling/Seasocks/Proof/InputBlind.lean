import Seasocks.Library.Program
import Seasocks.Run

/-!
# Routines that do not look at the input buffer

Answering a request, sending and dispatching messages do the same whatever is in the input buffer, and
leave it alone. Nothing depends on how many bytes have been received.
-/

namespace Seasocks.Connection

open Program

def withInput (bytesReceived : Nat) (inBuf : Bytes) (c : Connection) : Connection :=
  { c with bytesReceived, inBuf }

def Blind {α : Type} (m : ConnM α) : Prop :=
  ∀ bytesReceived inBuf, Commutes (withInput bytesReceived inBuf) m

variable {w : World} {α β : Type}

theorem blind_pure (a : α) : Blind (pure a : ConnM α) := fun _ _ => commutes_pure a

theorem Blind.bind {m : ConnM β} {k : β → ConnM α} (h : Blind m) (hk : ∀ b, Blind (k b)) :
    Blind (m >>= k) := fun bytesReceived inBuf =>
  (h bytesReceived inBuf).bind fun b => hk b bytesReceived inBuf

theorem Blind.get_bind {k : Connection → ConnM α}
    (hsame : ∀ c bytesReceived inBuf, k (withInput bytesReceived inBuf c) = k c)
    (hk : ∀ c, Blind (k c)) : Blind (get >>= k) := fun bytesReceived inBuf =>
  Commutes.get_bind (fun c => hsame c bytesReceived inBuf) fun c => hk c bytesReceived inBuf

theorem Blind.ite {p : Prop} [Decidable p] {m m' : ConnM α} (h : Blind m) (h' : Blind m') :
    Blind (if p then m else m') := fun bytesReceived inBuf =>
  (h bytesReceived inBuf).ite (h' bytesReceived inBuf)

theorem Blind.forM {k : β → ConnM PUnit} (l : List β) (h : ∀ b, Blind (k b)) :
    Blind (forM l k) := fun bytesReceived inBuf =>
  Commutes.forM l fun b _ => h b bytesReceived inBuf

theorem liftOut_blind (m : OutM α) : Blind (liftOut m) := fun _ _ _ => rfl

theorem fault_blind (f : Fault) : Blind (fault f : ConnM α) := fun _ _ => commutes_throw _

theorem record_blind (call : Call) : Blind (record call) := fun _ _ => commutes_modify fun _ => rfl

theorem setState_blind (state : State) : Blind (setState state) := fun _ _ =>
  commutes_modify fun _ => rfl

theorem closeInternal_blind : Blind closeInternal := liftOut_blind _

theorem liftChecked_blind (m : OutM (Except Fault α)) : Blind (liftChecked m) :=
  (liftOut_blind m).bind fun result => by
    cases result with
    | ok a => exact blind_pure a
    | error f => exact fault_blind f

theorem theRequest_blind : Blind theRequest :=
  Blind.get_bind (fun _ _ _ => rfl) fun c => by
    cases c.request with
    | some request => exact blind_pure request
    | none => exact fault_blind _

/-! ### Error pages -/

theorem sendError_blind (responseCode : ResponseCode) (body : Bytes) :
    Blind (sendError w responseCode body) :=
  Blind.get_bind (fun _ _ _ => rfl) fun _ => (fault_blind _).ite (liftOut_blind _)

theorem send404_blind : Blind (send404 w) :=
  Blind.get_bind (fun _ _ _ => rfl) fun c => by
    dsimp only
    cases w.embeddedContent c.getRequestUri with
    | some embedded => exact liftOut_blind _
    | none => exact (liftOut_blind _).ite (sendError_blind _ _)

/-! ### Responses -/

theorem error_blind (responseCode : ResponseCode) (payload : Bytes) :
    Blind (error w responseCode payload) :=
  Blind.get_bind (fun _ _ _ => rfl) fun _ =>
    Blind.ite
      ((send404_blind.bind fun _ => blind_pure _).ite
        ((sendError_blind _ _).bind fun _ => blind_pure _))
      (blind_pure _)

theorem begin_blind (responseCode : ResponseCode) (encoding : TransferEncoding) :
    Blind (begin w responseCode encoding) :=
  Blind.get_bind (fun _ _ _ => rfl) fun _ =>
    Blind.ite
      ((setState_blind _).bind fun _ => (liftOut_blind _).bind fun _ =>
        Blind.bind (fun _ _ => commutes_modify fun _ => rfl) fun _ =>
          ((liftOut_blind _).bind fun _ => blind_pure _).ite (blind_pure _))
      (blind_pure _)

theorem header_blind (name value : Bytes) : Blind (header w name value) :=
  Blind.get_bind (fun _ _ _ => rfl) fun _ =>
    ((liftOut_blind _).bind fun _ => blind_pure _).ite (blind_pure _)

theorem writeChunkHeader_blind (size : Nat) : Blind (writeChunkHeader w size) := fun _ _ _ => rfl

theorem payloadBody_blind (data : Bytes) (flush : Bool) : Blind (payloadBody w data flush) :=
  Blind.get_bind (fun _ _ _ => rfl) fun _ =>
    ((writeChunkHeader_blind _).bind fun _ => (liftOut_blind _).bind fun _ => blind_pure _).ite
      ((liftOut_blind _).bind fun _ => blind_pure _)

theorem payload_blind (data : Bytes) (flush : Bool) : Blind (payload w data flush) :=
  Blind.get_bind (fun _ _ _ => rfl) fun _ =>
    Blind.ite
      ((liftOut_blind _).bind fun _ => (setState_blind _).bind fun _ => payloadBody_blind _ _)
      ((payloadBody_blind _ _).ite (blind_pure _))

theorem finishBody_blind (keepConnectionOpen : Bool) : Blind (finishBody w keepConnectionOpen) := by
  have finish : Blind (modify fun c => { c with state := .readingHeaders, response := none }
      : ConnM PUnit) := fun _ _ => commutes_modify fun _ => rfl
  have flush : Blind (do
      let _ ← liftOut (Output.flush w)
      if !keepConnectionOpen then
        liftOut Output.closeWhenEmpty
      modify fun c => { c with state := .readingHeaders, response := none } : ConnM Unit) :=
    (liftOut_blind _).bind fun _ => ((liftOut_blind _).bind fun _ => finish).ite finish
  exact Blind.get_bind (fun _ _ _ => rfl) fun _ =>
    ((writeChunkHeader_blind _).bind fun _ => (liftOut_blind _).bind fun _ => flush).ite flush

theorem finish_blind (keepConnectionOpen : Bool) : Blind (finish w keepConnectionOpen) :=
  Blind.get_bind (fun _ _ _ => rfl) fun _ =>
    Blind.ite ((liftOut_blind _).bind fun _ => finishBody_blind _)
      ((finishBody_blind _).ite (blind_pure _))

theorem writerCall_blind (call : WriterCall) : Blind (writerCall w call) := by
  cases call with
  | begin responseCode encoding => exact begin_blind _ _
  | header name value => exact header_blind _ _
  | payload data flush => exact payload_blind _ _
  | finish keepConnectionOpen => exact finish_blind _
  | error responseCode payload => exact error_blind _ _

theorem handleResponse_blind (response : Response) : Blind (handleResponse w response) :=
  Blind.get_bind (fun _ _ _ => rfl) fun _ =>
    Blind.ite (fault_blind _)
      (Blind.bind (fun _ _ => commutes_modify fun _ => rfl) fun _ =>
        (Blind.forM _ writerCall_blind).bind fun _ => blind_pure _)

theorem sendStaticData_blind : Blind (sendStaticData w) :=
  Blind.get_bind (fun _ _ _ => rfl) fun c => by
    dsimp only
    cases (trimQuery (w.staticPath ++ c.getRequestUri)).getLast? with
    | none => exact fault_blind _
    | some last =>
        refine (record_blind _).bind fun _ => ?_
        cases w.openFile c.calls (if last = 47 then _ else _) with
        | none => exact send404_blind
        | some file =>
            dsimp only
            split
            · exact fun _ _ => commutes_throw _
            · exact sendError_blind _ _
            · exact liftChecked_blind _

/-! ### WebSocket output -/

theorem sendHybi_blind (opcode : HybiPacketDecoder.Opcode) (webSocketResponse : Bytes) :
    Blind (sendHybi w opcode webSocketResponse) :=
  Blind.get_bind (fun _ _ _ => rfl) fun _ => (liftOut_blind _).bind fun _ =>
    Blind.ite
      (Blind.ite
        (Blind.get_bind (fun _ _ _ => rfl) fun _ => (record_blind _).bind fun _ => liftOut_blind _)
        (liftOut_blind _))
      (blind_pure _)

theorem wsCall_blind (call : WsCall) : Blind (wsCall w call) := by
  cases call with
  | sendText data =>
      refine Blind.get_bind (fun _ _ _ => rfl) fun _ => Blind.ite (Blind.ite ?_ ?_) (blind_pure _)
      · refine (liftOut_blind _).bind fun _ => Blind.ite ?_ (blind_pure _)
        refine (liftOut_blind _).bind fun _ => Blind.ite ?_ (blind_pure _)
        exact (liftOut_blind _).bind fun _ => blind_pure _
      · exact sendHybi_blind _ _
  | sendBinary data =>
      refine Blind.get_bind (fun _ _ _ => rfl) fun _ => Blind.ite (Blind.ite ?_ ?_) (blind_pure _)
      · exact sendHybi_blind _ _
      · exact blind_pure _
  | close => exact liftOut_blind Output.close

theorem callHandler_blind (call : Call) (react : List Entry → List WsCall) :
    Blind (callHandler w call react) :=
  (record_blind _).bind fun _ =>
    Blind.get_bind (fun _ _ _ => rfl) fun _ => Blind.forM _ wsCall_blind

theorem installed_blind {call : HandlerId → ConnM Unit} (hcall : ∀ handler, Blind (call handler)) :
    Blind (get >>= fun c =>
      match c.webSocketHandler with
      | some handler => call handler
      | none => pure ()) := by
  refine Blind.get_bind (fun _ _ _ => rfl) fun c => ?_
  cases c.webSocketHandler with
  | some handler => exact hcall handler
  | none => exact blind_pure _

theorem dispatchMessage_blind (messageState : HybiPacketDecoder.MessageState) (message : Bytes) :
    Blind (dispatchMessage w messageState message) := by
  cases messageState with
  | noMessage | pong => exact blind_pure _
  | error | close => exact closeInternal_blind.bind fun _ => blind_pure _
  | textMessage =>
      have hcall : ∀ handler, Blind (onText w handler (cString message)) := fun _ => callHandler_blind _ _
      exact (installed_blind hcall).bind fun _ => blind_pure _
  | binaryMessage =>
      have hcall : ∀ handler, Blind (onBinary w handler message) := fun _ => callHandler_blind _ _
      exact (installed_blind hcall).bind fun _ => blind_pure _
  | ping => exact (sendHybi_blind _ _).bind fun _ => blind_pure _

/-! ### Requests -/

theorem parsePerMessageDeflateHeader_blind (header : Bytes) :
    Blind (parsePerMessageDeflateHeader header) :=
  Blind.forM _ fun _ =>
    Blind.ite
      (Blind.bind (fun _ _ => commutes_modify fun _ => rfl) fun _ => record_blind _)
      (blind_pure _)

theorem handleHybiHandshake_blind (webSocketVersion : Int) (webSocketKey : Bytes) :
    Blind (handleHybiHandshake w webSocketVersion webSocketKey) := by
  refine Blind.ite (sendError_blind _ _) (theRequest_blind.bind fun _ => ?_)
  refine Blind.get_bind (fun _ _ _ => rfl) fun c => (liftOut_blind _).bind fun _ => ?_
  cases c.webSocketHandler with
  | some handler =>
      exact (callHandler_blind _ _).bind fun _ => (setState_blind _).bind fun _ => blind_pure _
  | none => exact (setState_blind _).bind fun _ => blind_pure _

theorem handleUpgrade_blind (request : PageRequest) : Blind (handleUpgrade w request) := by
  refine Blind.bind (fun _ _ => commutes_modify fun _ => rfl) fun _ => ?_
  cases stoi (request.getHeader (ascii "Sec-WebSocket-Version")) with
  | error e => exact sendError_blind _ _
  | ok webSocketVersion =>
      refine Blind.ite send404_blind (Blind.ite ?_ (handleHybiHandshake_blind _ _))
      exact (setState_blind _).bind fun _ => blind_pure _

theorem handlePageRequest_blind : Blind (handlePageRequest w) := by
  refine theRequest_blind.bind fun request => Blind.get_bind (fun _ _ _ => rfl) fun c => ?_
  refine (record_blind _).bind fun _ => ?_
  cases w.handle c.calls request with
  | throws what => exact sendError_blind _ _
  | throwsUnknown => exact sendError_blind _ _
  | response response => exact handleResponse_blind _
  | unhandled => exact (handleUpgrade_blind _).ite sendStaticData_blind

theorem processRequest_blind (verb : Verb) (requestUri : Bytes) (headers : HeaderMap) :
    Blind (processRequest w verb requestUri headers) := by
  have page : ∀ length : Nat, Blind (if w.clientBufferSize < length then
        sendBadRequest w (ascii "Content length too long")
      else if length = 0 then
        handlePageRequest w
      else do
        setState .bufferingPostData
        return true) := fun length =>
    Blind.ite (sendError_blind _ _)
      (Blind.ite handlePageRequest_blind ((setState_blind _).bind fun _ => blind_pure _))
  refine Blind.bind (fun _ _ => commutes_modify fun _ => rfl) fun _ => ?_
  split
  · exact liftOut_blind _
  · exact liftOut_blind _
  · exact page _

theorem processParsed_blind (verb : Verb) (requestUri : Bytes) (headers : HeaderMap) :
    Blind (processParsed w verb requestUri headers) := by
  refine Blind.ite (Blind.ite (sendError_blind _ _) ?_) (processRequest_blind _ _ _)
  refine Blind.bind (fun _ _ => commutes_modify fun _ => rfl) fun _ => Blind.ite send404_blind ?_
  exact Blind.ite ((parsePerMessageDeflateHeader_blind _).bind fun _ => processRequest_blind _ _ _)
    (processRequest_blind _ _ _)

end Seasocks.Connection
