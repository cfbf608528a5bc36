import Seasocks.Proof.OutputRoutines
import Seasocks.Proof.Ranges
import Seasocks.Run

/-!
# What a connection does while it serves a request

The small steps `processHeaders` and the responses are made of, each with what is known when it is
taken. An invariant of these steps holds whatever the request and the application's answer are.
-/

namespace Seasocks.Connection

open Program Relation

variable {w : World} {c : Connection}

/-! ### The state monad -/

@[simp]
theorem ends_liftOut {α : Type} {m : OutM α} {post : α → Connection → Prop}
    {throws : Exn → Connection → Prop} :
    Ends (liftOut m) c post throws ↔ After m c.out fun result out => post result { c with out := out } :=
  Iff.rfl

@[simp]
theorem ends_fault {α : Type} {f : Fault} {post : α → Connection → Prop}
    {throws : Exn → Connection → Prop} :
    Ends (fault f : ConnM α) c post throws ↔ throws (.fault f) c := Iff.rfl

/-- An output routine takes the connection through its own steps, and leaves the rest alone. -/
theorem liftOut_bind_steps {α β : Type} {step : Connection → Connection → Prop}
    {last : Exn → Connection → Connection → Prop} {outStep : Output → Output → Prop} {m : OutM α} {f : α → ConnM β} (h : Runs outStep m)
    (hstep : ∀ (c : Connection) out, outStep c.out out → step c { c with out := out })
    (hf : ∀ result out, ReflTransGen outStep c.out out →
      Steps step last (f result) { c with out := out }) :
    Steps step last (liftOut m >>= f) c := by
  unfold Steps
  rw [ends_bind, ends_liftOut]
  refine (h c.out).mono fun result out hout => ?_
  have hsteps : ReflTransGen step c { c with out := out } := by
    refine ReflTransGen.lift (fun out => { c with out := out }) (fun o o' ho => ?_) _ _ hout
    exact hstep { c with out := o } o' ho
  exact (hf result out hout).after hsteps

/-! ### Sending -/

/-- The steps between two changes of the state: output, and compression for it. -/
inductive SendStep (w : World) : Connection → Connection → Prop where
  | output {c : Connection} {out : Output} (h : Output.OpStep w c.out out) :
      SendStep w c { c with out := out }
  | deflate {c : Connection} (input : Bytes) :
      SendStep w c { c with calls := c.calls ++ [⟨.deflate input, c.out⟩] }

abbrev Sends (w : World) : Connection → Connection → Prop := ReflTransGen (SendStep w)

theorem liftOut_sends {α : Type} {m : OutM α} (h : Runs (Output.OpStep w) m) :
    Returns (SendStep w) (liftOut m) := fun c => by
  rw [ends_liftOut]
  refine (h c.out).mono fun _ out hout => ?_
  refine ReflTransGen.lift (fun out => { c with out := out }) (fun o o' hstep => ?_) _ _ hout
  exact SendStep.output (c := { c with out := o }) hstep

theorem liftOut_buffers {α : Type} {m : OutM α} (h : Runs (Output.BufferStep w) m) :
    Returns (SendStep w) (liftOut m) := liftOut_sends (h.mono fun _ _ => Output.BufferStep.op)

theorem sendHybi_sends (opcode : HybiPacketDecoder.Opcode) (webSocketResponse : Bytes) :
    Returns (SendStep w) (sendHybi w opcode webSocketResponse) := by
  refine Returns.get_bind fun c => (liftOut_buffers (Output.write_runs _ _)).bind fun _ => ?_
  refine Returns.ite (Returns.ite ?_ ?_) (Returns.pure _)
  · refine Returns.get_bind fun c => ?_
    refine (Returns.single fun c => SendStep.deflate webSocketResponse).bind fun _ => ?_
    exact liftOut_buffers (Output.sendHybiData_runs _)
  · exact liftOut_buffers (Output.sendHybiData_runs _)

theorem wsCall_sends (call : WsCall) : Returns (SendStep w) (wsCall w call) := by
  cases call with
  | sendText data =>
      refine Returns.get_bind fun c => Returns.ite (Returns.ite ?_ ?_) (Returns.pure _)
      · refine (liftOut_buffers (Output.write_runs _ _)).bind fun _ => Returns.ite ?_ (Returns.pure _)
        refine (liftOut_buffers (Output.write_runs _ _)).bind fun _ => Returns.ite ?_ (Returns.pure _)
        exact (liftOut_buffers (Output.write_runs _ _)).bind fun _ => Returns.pure _
      · exact sendHybi_sends _ _
  | sendBinary data =>
      refine Returns.get_bind fun c => Returns.ite (Returns.ite ?_ (Returns.pure _)) (Returns.pure _)
      exact sendHybi_sends _ _
  | close => exact liftOut_sends Output.close_runs

/-- A call of a handler: the entry, then what the handler sends. -/
theorem callHandler_ends (call : Call) (react : List Entry → List WsCall) (c : Connection) :
    Ends (callHandler w call react) c
      (fun _ c' => Sends w { c with calls := c.calls ++ [⟨call, c.out⟩] } c') fun _ _ => False := by
  rw [callHandler, ends_bind]
  exact Returns.get_bind (fun c => Returns.forM fun call => wsCall_sends call) _

/-- Sending changes the output side only, but for the log of the compressor. -/
theorem Sends.frame {c c' : Connection} (h : Sends w c c') :
    ∃ out calls, c' = { c with out := out, calls := c.calls ++ calls } ∧
      ReflTransGen (Output.OpStep w) c.out out ∧ ∀ entry ∈ calls, ∃ input, entry.call = .deflate input := by
  induction h with
  | refl => exact ⟨c.out, [], by simp, ReflTransGen.refl, by simp⟩
  | tail _ hstep ih =>
      obtain ⟨out, calls, rfl, hout, hcalls⟩ := ih
      cases hstep with
      | output hop => exact ⟨_, calls, rfl, hout.tail hop, hcalls⟩
      | deflate input =>
          refine ⟨out, calls ++ [⟨.deflate input, out⟩], by simp, hout, ?_⟩
          intro entry hentry
          rcases List.mem_append.mp hentry with hentry | hentry
          · exact hcalls entry hentry
          · rw [List.mem_singleton.mp hentry]
            exact ⟨input, rfl⟩

theorem Sends.state_eq {c c' : Connection} (h : Sends w c c') : c'.state = c.state := by
  obtain ⟨out, calls, rfl, -⟩ := h.frame
  rfl

/-! ### Responding -/

/-- The steps a response takes through its writer. -/
inductive WriteStep (w : World) : Connection → Connection → Prop where
  | send {c c' : Connection} (h : SendStep w c c') : WriteStep w c c'
  | headers {c : Connection} (hstate : c.state = .awaitingResponseBegin) :
      WriteStep w c { c with state := .sendingResponseHeaders }
  | encoding {c : Connection} (encoding : TransferEncoding)
      (hstate : c.state = .sendingResponseHeaders) :
      WriteStep w c { c with transferEncoding := encoding }
  | body {c : Connection} (hstate : c.state = .sendingResponseHeaders) :
      WriteStep w c { c with state := .sendingResponseBody }
  | chunk {c : Connection} (chunk : UInt32)
      (hstate : c.state = .sendingResponseHeaders ∨ c.state = .sendingResponseBody) :
      WriteStep w c { c with chunk := chunk }
  | finish {c : Connection}
      (hstate : c.state = .sendingResponseHeaders ∨ c.state = .sendingResponseBody) :
      WriteStep w c { c with state := .readingHeaders, response := none }

abbrev Writes (w : World) : Connection → Connection → Prop := ReflTransGen (WriteStep w)

/-! ### Serving a request -/

/-- Something has been taken from the input buffer and nothing sent since. -/
def JustTaken (calls : List Entry) (out : Output) : Prop :=
  ∃ entry ∈ calls, entry.call.isTaken = true ∧ entry.out = out

theorem JustTaken.append {calls : List Entry} {out : Output} (h : JustTaken calls out)
    (calls' : List Entry) : JustTaken (calls ++ calls') out := by
  obtain ⟨entry, hentry, htaken, hout⟩ := h
  exact ⟨entry, List.mem_append_left _ hentry, htaken, hout⟩

theorem justTaken_concat {calls : List Entry} {out : Output} {call : Call}
    (h : call.isTaken = true) : JustTaken (calls ++ [⟨call, out⟩]) out :=
  ⟨_, List.mem_append_right _ List.mem_cons_self, h, rfl⟩

/-- The steps a request is answered with, once there is one. -/
inductive Answer (w : World) : Connection → Connection → Prop where
  | write {c c' : Connection} (h : WriteStep w c c') : Answer w c c'
  | setHandler {c : Connection} (handler : Option HandlerId) (hstate : c.state = .readingHeaders) :
      Answer w c { c with webSocketHandler := handler }
  | handle {c : Connection} {request : PageRequest} (hstate : c.state = .readingHeaders)
      (hrequest : c.request = some request) (htaken : JustTaken c.calls c.out) :
      Answer w c { c with calls := c.calls ++ [⟨.handle request, c.out⟩] }
  | openFile {c : Connection} {before : List Entry} {request : PageRequest} (path : Bytes)
      (opened : Bool) (hstate : c.state = .readingHeaders) (hrequest : c.request = some request)
      (hcalls : c.calls = before ++ [⟨.handle request, c.out⟩])
      (hrange : opened = true → ¬ BadRange (request.getHeader (ascii "Range"))) :
      Answer w c { c with calls := c.calls ++ [⟨.openFile path opened, c.out⟩] }
  | respond {c : Connection} (response : Response) (hstate : c.state = .readingHeaders)
      (hnone : c.response = none) :
      Answer w c
        { c with
          state := .awaitingResponseBegin
          transferEncoding := .raw
          chunk := 0
          response := some response }
  | awaitKey {c : Connection} {handler : HandlerId} (hstate : c.state = .readingHeaders)
      (hhandler : c.webSocketHandler = some handler) :
      Answer w c { c with state := .readingWebSocketKey3 }
  | connect {c c' : Connection} {before : List Entry} {request : PageRequest}
      {handler : HandlerId} {out : Output} (hstate : c.state = .readingHeaders)
      (hhandler : c.webSocketHandler = some handler) (hverb : request.verb = .webSocket)
      (hcalls : c.calls = before ++ [⟨.handle request, c.out⟩])
      (hout : ReflTransGen (Output.BufferStep w) c.out out)
      (hsends : Sends w
        { c with out := out, calls := c.calls ++ [⟨.onConnect handler, out⟩] } c') :
      Answer w c { c' with state := .handlingHybiWebSocket }

abbrev Answers (w : World) : Connection → Connection → Prop := ReflTransGen (Answer w)

/-- The steps taken while a request is served; none of them touches the input buffer. -/
inductive Serve (w : World) : Connection → Connection → Prop where
  | answer {c c' : Connection} (h : Answer w c c') : Serve w c c'
  | initialise {c : Connection} (hstate : c.state = .readingHeaders) :
      Serve w c
        { c with perMessageDeflate := true, calls := c.calls ++ [⟨.initialise, c.out⟩] }
  | create {c : Connection} (request : PageRequest) (hstate : c.state = .readingHeaders)
      (hcontent : request.content = []) : Serve w c { c with request := some request }
  | buffer {c : Connection} {request : PageRequest} (hstate : c.state = .readingHeaders)
      (hrequest : c.request = some request) (hcontent : request.content = [])
      (hlength : request.contentLength ≠ 0) (hbounded : request.contentLength ≤ w.clientBufferSize) :
      Serve w c { c with state := .bufferingPostData }

/-- What comes right before a program ends in an exception: nothing, where it has no meaning, or the
opening of a file for a request with a bad range. -/
inductive Thrown : Exn → Connection → Connection → Prop where
  | fault (f : Fault) (c : Connection) : Thrown (.fault f) c c
  | range {c : Connection} {before : List Entry} {request : PageRequest} (e : LogicError)
      (path : Bytes) (hstate : c.state = .readingHeaders) (hrequest : c.request = some request)
      (hcalls : c.calls = before ++ [⟨.handle request, c.out⟩])
      (hrange : BadRange (request.getHeader (ascii "Range"))) :
      Thrown (.exception e) c { c with calls := c.calls ++ [⟨.openFile path true, c.out⟩] }

theorem fault_steps {α : Type} {step : Connection → Connection → Prop} {f : Fault} :
    Steps step Thrown (fault f : ConnM α) c := Steps.throw (Thrown.fault f c)

abbrev Serves (w : World) : Connection → Connection → Prop := ReflTransGen (Serve w)

theorem liftOut_writes {α : Type} {m : OutM α} (h : Runs (Output.OpStep w) m) (c : Connection) :
    Steps (WriteStep w) Thrown (liftOut m) c := ((liftOut_sends h).steps c).mono fun _ _ => WriteStep.send

theorem liftOut_bind_writes {α β : Type} {m : OutM α} {f : α → ConnM β}
    (h : Runs (Output.OpStep w) m)
    (hf : ∀ result out, Steps (WriteStep w) Thrown (f result) { c with out := out }) :
    Steps (WriteStep w) Thrown (liftOut m >>= f) c :=
  liftOut_bind_steps h (fun _ _ hstep => WriteStep.send (SendStep.output hstep)) fun result out _ =>
    hf result out

theorem sendError_writes (responseCode : ResponseCode) (body : Bytes) (c : Connection) :
    Steps (WriteStep w) Thrown (sendError w responseCode body) c :=
  Steps.get_bind <| Steps.ite (fun _ => fault_steps) fun _ =>
    liftOut_writes (Output.sendError_runs _ _) _

theorem sendData_writes (type content : Bytes) (c : Connection) :
    Steps (WriteStep w) Thrown (liftOut (Output.sendData w type content)) c :=
  liftOut_writes ((Output.sendData_runs _ _).mono fun _ _ => Output.BufferStep.op) c

theorem send404_writes (c : Connection) : Steps (WriteStep w) Thrown (send404 w) c := by
  refine Steps.get_bind ?_
  dsimp only
  cases w.embeddedContent c.getRequestUri with
  | some embedded => exact sendData_writes _ _ _
  | none => exact Steps.ite (fun _ => sendData_writes _ _ _) fun _ => sendError_writes _ _ _

/-! ### Responses of page handlers -/

theorem buffers_writes {α : Type} {m : OutM α} (h : Runs (Output.BufferStep w) m) (c : Connection) :
    Steps (WriteStep w) Thrown (liftOut m) c := liftOut_writes (h.mono fun _ _ => Output.BufferStep.op) c

theorem buffers_bind_writes {α β : Type} {m : OutM α} {f : α → ConnM β}
    (h : Runs (Output.BufferStep w) m)
    (hf : ∀ result out, Steps (WriteStep w) Thrown (f result) { c with out := out }) :
    Steps (WriteStep w) Thrown (liftOut m >>= f) c :=
  liftOut_bind_writes (h.mono fun _ _ => Output.BufferStep.op) hf

/-- The states in which a body may be written. -/
def Sending (c : Connection) : Prop :=
  c.state = .sendingResponseHeaders ∨ c.state = .sendingResponseBody

theorem writeChunkHeader_bind_writes {size : Nat} {f : Unit → ConnM Unit} (hstate : Sending c)
    (hf : ∀ c, Sending c → Steps (WriteStep w) Thrown (f ()) c) :
    Steps (WriteStep w) Thrown (writeChunkHeader w size >>= f) c := by
  rw [writeChunkHeader, bind_assoc]
  refine Steps.get_bind ?_
  dsimp only
  rw [bind_assoc]
  refine Steps.update_bind (WriteStep.chunk _ hstate) ?_
  rw [bind_assoc]
  exact buffers_bind_writes (Output.write_runs _ _) fun _ out => hf _ hstate

theorem payloadBody_writes (data : Bytes) (flush : Bool) {c : Connection} (hstate : Sending c) :
    Steps (WriteStep w) Thrown (payloadBody w data flush) c := by
  have body : ∀ c, Steps (WriteStep w) Thrown (do let _ ← liftOut (Output.write w data flush)) c := fun c =>
    buffers_bind_writes (Output.write_runs _ _) fun _ _ => Steps.pure _
  refine Steps.get_bind (Steps.ite (fun _ => ?_) fun _ => body c)
  exact writeChunkHeader_bind_writes hstate fun c _ => body c

theorem finishBody_writes (keepConnectionOpen : Bool) {c : Connection} (hstate : Sending c) :
    Steps (WriteStep w) Thrown (finishBody w keepConnectionOpen) c := by
  have last : ∀ c, Sending c → Steps (WriteStep w) Thrown
      (modify fun c => { c with state := .readingHeaders, response := none } : ConnM Unit) c :=
    fun c hstate =>
      Steps.update (WriteStep.finish hstate)
  have close : ∀ c, Sending c → Steps (WriteStep w) Thrown (do
      let _ ← liftOut (Output.flush w)
      if !keepConnectionOpen then
        liftOut Output.closeWhenEmpty
      modify fun c => { c with state := .readingHeaders, response := none }) c := fun c hstate =>
    buffers_bind_writes Output.flush_runs fun _ out => by
      refine Steps.ite (fun _ => ?_) fun _ => last _ hstate
      exact liftOut_bind_writes Output.closeWhenEmpty_runs fun _ _ => last _ hstate
  refine Steps.get_bind (Steps.ite (fun _ => ?_) fun _ => close c hstate)
  refine writeChunkHeader_bind_writes hstate fun c hstate => ?_
  exact buffers_bind_writes (Output.write_runs _ _) fun _ _ => close _ hstate

/-- A call of a writer amounts to steps of serving, whatever the state it comes in. -/
theorem writerCall_writes (call : WriterCall) (c : Connection) :
    Steps (WriteStep w) Thrown (writerCall w call) c := by
  cases call with
  | begin responseCode encoding =>
      refine Steps.get_bind (Steps.ite (fun hstate => ?_) fun _ => Steps.pure _)
      refine Steps.update_bind (WriteStep.headers hstate) ?_
      refine buffers_bind_writes (Output.bufferResponseAndCommonHeaders_runs _) fun _ out => ?_
      refine Steps.update_bind (WriteStep.encoding encoding rfl) ?_
      refine Steps.ite (fun _ => ?_) fun _ => Steps.pure _
      exact buffers_bind_writes (Output.bufferText_runs _) fun _ _ => Steps.pure _
  | header name value =>
      refine Steps.get_bind (Steps.ite (fun _ => ?_) fun _ => Steps.pure _)
      exact buffers_bind_writes (Output.bufferLine_runs _) fun _ _ => Steps.pure _
  | payload data flush =>
      refine Steps.get_bind (Steps.ite (fun hstate => ?_) fun _ => Steps.ite (fun hstate => ?_)
        fun _ => Steps.pure _)
      · refine buffers_bind_writes (Output.bufferText_runs _) fun _ out => ?_
        refine Steps.update_bind (WriteStep.body hstate) ?_
        exact payloadBody_writes _ _ (Or.inr rfl)
      · exact payloadBody_writes _ _ (Or.inr hstate)
  | finish keepConnectionOpen =>
      refine Steps.get_bind (Steps.ite (fun hstate => ?_) fun _ => Steps.ite (fun hstate => ?_)
        fun _ => Steps.pure _)
      · exact buffers_bind_writes (Output.bufferText_runs _) fun _ out =>
          finishBody_writes _ (Or.inl hstate)
      · exact finishBody_writes _ (Or.inr hstate)
  | error responseCode payload =>
      refine Steps.get_bind (Steps.ite (fun _ => Steps.ite (fun _ => ?_) fun _ => ?_)
        fun _ => Steps.pure _)
      · exact (send404_writes _).bind fun _ _ _ => Steps.pure _
      · exact (sendError_writes _ _ _).bind fun _ _ _ => Steps.pure _

theorem answers_of_writes {α : Type} {m : ConnM α} (h : Steps (WriteStep w) Thrown m c) :
    Steps (Answer w) Thrown m c := h.mono fun _ _ => Answer.write

theorem Answer.send {c c' : Connection} (h : SendStep w c c') : Answer w c c' := .write (.send h)

theorem sendError_answers (responseCode : ResponseCode) (body : Bytes) (c : Connection) :
    Steps (Answer w) Thrown (sendError w responseCode body) c := answers_of_writes (sendError_writes _ _ _)

theorem send404_answers (c : Connection) : Steps (Answer w) Thrown (send404 w) c :=
  answers_of_writes (send404_writes c)

theorem handleResponse_answers (response : Response) {c : Connection}
    (hstate : c.state = .readingHeaders) : Steps (Answer w) Thrown (handleResponse w response) c := by
  refine Steps.get_bind (Steps.ite (fun _ => fault_steps) fun hnone => ?_)
  refine Steps.update_bind (Answer.respond response hstate (by simpa using hnone)) ?_
  exact (answers_of_writes (Steps.forM writerCall_writes _)).bind fun _ _ _ => Steps.pure _

/-! ### Requests -/

/-- The last call was the one to the page handlers for `request`, and nothing has been sent since. -/
def JustHandled (request : PageRequest) (c : Connection) : Prop :=
  c.state = .readingHeaders ∧ c.request = some request ∧
    ∃ before, c.calls = before ++ [⟨.handle request, c.out⟩]

theorem sendStaticData_answers {request : PageRequest} {c : Connection} (h : JustHandled request c) :
    Steps (Answer w) Thrown (sendStaticData w) c := by
  obtain ⟨hstate, hrequest, before, hcalls⟩ := h
  have hheader : c.getHeader (ascii "Range") = request.getHeader (ascii "Range") := by
    rw [getHeader, hrequest]
    rfl
  refine Steps.get_bind ?_
  dsimp only
  rw [hheader]
  cases (trimQuery (w.staticPath ++ c.getRequestUri)).getLast? with
  | none => exact fault_steps
  | some last =>
      dsimp only
      generalize (if last = 47 then _ else _ : Bytes) = path
      have opened : ∀ opened, (opened = true → ¬ BadRange (request.getHeader (ascii "Range"))) →
          Answer w c { c with calls := c.calls ++ [⟨.openFile path opened, c.out⟩] } :=
        fun opened => Answer.openFile path opened hstate hrequest hcalls
      cases w.openFile c.calls path with
      | none => exact Steps.update_bind (opened false (by simp)) (send404_answers _)
      | some file =>
          dsimp only
          have hthrows : Throws (if request.getHeader (ascii "Range") = [] then .ok (some [])
              else parseRanges (request.getHeader (ascii "Range"))) ↔
              BadRange (request.getHeader (ascii "Range")) := by
            split_ifs with hempty
            · rw [hempty]
              exact iff_of_false throws_ok fun hbad => by simp [BadRange, expectedPrefix, ascii] at hbad
            · exact parseRanges_throws_iff _
          revert hthrows
          generalize (if request.getHeader (ascii "Range") = [] then _ else _
            : Except LogicError (Option (List Range))) = parsed
          intro hthrows
          cases parsed with
          | error e =>
              exact ⟨c, ReflTransGen.refl,
                Thrown.range e path hstate hrequest hcalls (hthrows.mp throws_error)⟩
          | ok ranges =>
              refine Steps.update_bind (opened true fun _ hbad => throws_ok (hthrows.mpr hbad)) ?_
              cases ranges with
              | none => exact sendError_answers _ _ _
              | some ranges =>
                  refine answers_of_writes (buffers_bind_writes (Output.sendFile_runs _ _ _) ?_)
                  intro result out
                  cases result with
                  | ok sent => exact Steps.pure _
                  | error f => exact fault_steps

theorem theRequest_bind_steps {α : Type} {step : Connection → Connection → Prop}
    {f : PageRequest → ConnM α}
    (hf : ∀ request, c.request = some request → Steps step Thrown (f request) c) :
    Steps step Thrown (theRequest >>= f) c := by
  rw [theRequest, bind_assoc]
  refine Steps.get_bind ?_
  cases hrequest : c.request with
  | none => exact fault_steps.bind fun _ _ hrun => by injection hrun
  | some request => exact hf request hrequest

theorem handleHybiHandshake_answers {webSocketVersion : Int} {webSocketKey : Bytes}
    {request : PageRequest} {handler : HandlerId} (h : JustHandled request c)
    (hverb : request.verb = .webSocket) (hhandler : c.webSocketHandler = some handler) :
    Steps (Answer w) Thrown (handleHybiHandshake w webSocketVersion webSocketKey) c := by
  obtain ⟨hstate, -, before, hcalls⟩ := h
  refine Steps.ite (fun _ => sendError_answers _ _ _) fun _ => theRequest_bind_steps fun _ _ => ?_
  refine Steps.get_bind ?_
  rw [hhandler]
  unfold Steps
  rw [ends_bind, ends_liftOut]
  refine (Output.hybiHandshake_runs _ _ _ _ c.out).mono fun _ out hout => ?_
  rw [ends_bind]
  refine (callHandler_ends _ _ _).mono (fun _ c' hsends => ?_) fun _ _ => False.elim
  exact ReflTransGen.single (Answer.connect hstate hhandler hverb hcalls hout hsends)

theorem handleUpgrade_answers {request : PageRequest} (h : JustHandled request c)
    (hverb : request.verb = .webSocket) :
    Steps (Answer w) Thrown (handleUpgrade w request) c := by
  refine Steps.update_bind (Answer.setHandler (w.getWebSocketHandler request.requestUri) h.1) ?_
  cases stoi (request.getHeader (ascii "Sec-WebSocket-Version")) with
  | error _ => exact sendError_answers _ _ _
  | ok webSocketVersion =>
      cases hhandler : w.getWebSocketHandler request.requestUri with
      | none => exact send404_answers _
      | some handler =>
          refine Steps.ite (fun hnone => by cases hnone) fun _ => Steps.ite (fun _ => ?_) fun _ => ?_
          · exact Steps.update_bind (Answer.awaitKey h.1 rfl) (Steps.pure _)
          · exact handleHybiHandshake_answers ⟨h.1, h.2.1, h.2.2⟩ hverb rfl

theorem handlePageRequest_answers (hstate : c.state = .readingHeaders) (htaken : JustTaken c.calls c.out) :
    Steps (Answer w) Thrown (handlePageRequest w) c := by
  refine theRequest_bind_steps fun request hrequest => Steps.get_bind ?_
  dsimp only
  refine Steps.update_bind (Answer.handle hstate hrequest htaken) ?_
  have hhandled : JustHandled request
      { c with calls := c.calls ++ [⟨.handle request, c.out⟩] } := ⟨hstate, hrequest, c.calls, rfl⟩
  cases w.handle c.calls request with
  | throws what => exact sendError_answers _ _ _
  | throwsUnknown => exact sendError_answers _ _ _
  | response response => exact handleResponse_answers response hstate
  | unhandled =>
      refine Steps.ite (fun hverb => ?_) fun _ => ?_
      · exact handleUpgrade_answers hhandled hverb
      · exact sendStaticData_answers hhandled

theorem Serve.send {c c' : Connection} (h : SendStep w c c') : Serve w c c' := .answer (.send h)

theorem serves_of_answers {α : Type} {m : ConnM α} (h : Steps (Answer w) Thrown m c) :
    Steps (Serve w) Thrown m c := h.mono fun _ _ => Serve.answer

theorem processRequest_serves (verb : Verb) (requestUri : Bytes) (headers : HeaderMap)
    (hstate : c.state = .readingHeaders) (htaken : JustTaken c.calls c.out) :
    Steps (Serve w) Thrown (processRequest w verb requestUri headers) c := by
  refine Steps.update_bind (Serve.create (PageRequest.create requestUri verb headers) hstate rfl) ?_
  split
  · exact serves_of_answers (answers_of_writes (sendData_writes _ _ _))
  · exact serves_of_answers
      (answers_of_writes (buffers_writes (Output.bufferContentHeaders_runs _ _) _))
  · refine Steps.ite (fun _ => serves_of_answers (sendError_answers _ _ _)) fun hshort => ?_
    refine Steps.ite (fun _ => ?_) fun hlength => ?_
    · exact serves_of_answers (handlePageRequest_answers hstate htaken)
    · have hbounded := Nat.le_of_not_lt hshort
      exact Steps.update_bind (Serve.buffer hstate rfl rfl hlength hbounded) (Steps.pure _)

/-- Negotiating compression leaves everything else as it was. -/
theorem parsePerMessageDeflateHeader_bind_serves {α : Type} {header : Bytes} {f : Unit → ConnM α}
    (hstate : c.state = .readingHeaders) (htaken : JustTaken c.calls c.out)
    (hf : ∀ c, c.state = .readingHeaders → JustTaken c.calls c.out → Steps (Serve w) Thrown (f ()) c) :
    Steps (Serve w) Thrown (parsePerMessageDeflateHeader header >>= f) c := by
  rw [parsePerMessageDeflateHeader]
  induction split header 59 generalizing c with
  | nil => exact hf c hstate htaken
  | cons extField extFields ih =>
      rw [List.forM_cons, bind_assoc]
      by_cases hsame : caseInsensitiveSame (extField.dropWhile isspace) (ascii "permessage-deflate")
      · rw [if_pos hsame]
        refine Steps.bind (ReflTransGen.single (Serve.initialise hstate)) fun _ c' hrun => ?_
        injection hrun with _ hc'
        subst hc'
        exact ih hstate (htaken.append _)
      · rw [if_neg hsame, pure_bind]
        exact ih hstate htaken

theorem processParsed_serves (verb : Verb) (requestUri : Bytes) (headers : HeaderMap)
    (hstate : c.state = .readingHeaders) (htaken : JustTaken c.calls c.out) :
    Steps (Serve w) Thrown (processParsed w verb requestUri headers) c := by
  refine Steps.ite (fun _ => Steps.ite (fun _ => serves_of_answers (sendError_answers _ _ _)) fun _ => ?_) fun _ => ?_
  · refine Steps.update_bind (Serve.answer (Answer.setHandler (w.getWebSocketHandler requestUri) hstate)) ?_
    refine Steps.ite (fun _ => serves_of_answers (send404_answers _)) fun _ => Steps.ite (fun _ => ?_) fun _ => ?_
    · exact parsePerMessageDeflateHeader_bind_serves hstate htaken fun c hstate htaken =>
        processRequest_serves _ _ _ hstate htaken
    · exact processRequest_serves _ _ _ hstate htaken
  · exact processRequest_serves _ _ _ hstate htaken

end Seasocks.Connection
