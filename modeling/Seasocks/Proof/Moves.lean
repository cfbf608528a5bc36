import Seasocks.Proof.Decoder
import Seasocks.Proof.RequestParser
import Seasocks.Proof.Serving

/-!
# What a connection does in a run

The small steps of `handleNewData` and of the events around it. An invariant of these steps holds over
every run.
-/

namespace Seasocks.Connection

open Program Relation

variable {w : World} {c : Connection}

/-- A connection whose input is a stream of WebSocket messages. -/
def IsWebSocket (c : Connection) : Prop :=
  c.state = .handlingHixieWebSocket ∨ c.state = .handlingHybiWebSocket

/-- The steps of a run; `alive` connections only take them. -/
inductive Move (w : World) : Connection → Connection → Prop where
  | serve {c c' : Connection} (h : Serve w c c') : Move w c c'
  | headers {c : Connection} {i : Nat} (hstate : c.state = .readingHeaders)
      (hfind : find (crlf ++ crlf) c.inBuf = some i) :
      Move w c { c with calls := c.calls ++ [⟨.headers (c.inBuf.take (i + 4)), c.out⟩] }
  | overwrite {c : Connection} {last : Nat} (memory : Bytes) (hstate : c.state = .readingHeaders)
      (hmemory : memory.length = (c.inBuf.take last).length) :
      Move w c { c with inBuf := memory ++ c.inBuf.drop last }
  | drop {c : Connection} (count : Nat) : Move w c { c with inBuf := c.inBuf.drop count }
  | content {c : Connection} {request : PageRequest} (hstate : c.state = .bufferingPostData)
      (hrequest : c.request = some request) (request' : PageRequest) (inBuf : Bytes)
      (hconsume : request.consumeContent c.inBuf = some (request', inBuf)) :
      Move w c
        { c with
          state := .readingHeaders
          request := some request'
          inBuf := inBuf
          calls := c.calls ++ [⟨.content request'.content, c.out⟩] }
  | key {c : Connection} (hstate : c.state = .readingWebSocketKey3) (hlength : 8 ≤ c.inBuf.length) :
      Move w c { c with calls := c.calls ++ [⟨.key (c.inBuf.take 8), c.out⟩] }
  | connect {c : Connection} {before : List Entry} {key : Bytes} {out : Output}
      {handler : HandlerId} (hstate : c.state = .readingWebSocketKey3)
      (hhandler : c.webSocketHandler = some handler)
      (hcalls : c.calls = before ++ [⟨.key key, out⟩])
      (hout : ReflTransGen (Output.BufferStep w) out c.out) :
      Move w c
        { c with
          state := .handlingHixieWebSocket
          inBuf := c.inBuf.drop 8
          calls := c.calls ++ [⟨.onConnect handler, c.out⟩] }
  | connectNobody {c : Connection} (hstate : c.state = .readingWebSocketKey3)
      (hhandler : c.webSocketHandler = none) :
      Move w c { c with state := .handlingHixieWebSocket, inBuf := c.inBuf.drop 8 }
  | message {c : Connection} (message : Bytes) (hstate : c.state = .handlingHixieWebSocket) :
      Move w c { c with calls := c.calls ++ [⟨.message message, c.out⟩] }
  | frame {c : Connection} (frame : Bytes) (hstate : c.state = .handlingHybiWebSocket) :
      Move w c { c with calls := c.calls ++ [⟨.frame frame, c.out⟩] }
  | inflate {c : Connection} (input : Bytes) (hstate : c.state = .handlingHybiWebSocket)
      (hdeflate : c.perMessageDeflate = true) :
      Move w c { c with calls := c.calls ++ [⟨.inflate input, c.out⟩] }
  | data {c : Connection} {handler : HandlerId} {call : Call} (hstate : IsWebSocket c)
      (hhandler : c.webSocketHandler = some handler) (htaken : JustTaken c.calls c.out)
      (hcall : ∃ message, call = .onText handler message ∨ call = .onBinary handler message) :
      Move w c { c with calls := c.calls ++ [⟨call, c.out⟩] }
  | receive {c : Connection} (received : Bytes) (hopen : c.closed = false) :
      Move w c
        { c with
          bytesReceived := c.bytesReceived + received.length
          inBuf := c.inBuf ++ received }
  | enlarge {c : Connection} (hopen : c.closed = false) :
      Move w c { c with inBuf := c.inBuf ++ List.replicate readWriteBufferSize 0 }
  | cancel {c : Connection} (hresponse : c.response.isSome = true) :
      Move w c
        { c with response := none, writer := false, calls := c.calls ++ [⟨.cancel, c.out⟩] }
  | disconnect {c c' : Connection} {handler : HandlerId} {out : Output} (halive : c.alive = true)
      (hresponse : c.response = none) (hhandler : c.webSocketHandler = some handler)
      (hsends : Sends w { c with calls := c.calls ++ [⟨.onDisconnect handler, c.out⟩] } c')
      (hout : out.fd = false) :
      Move w c { c' with webSocketHandler := none, out := out, alive := false }
  | vanish {c : Connection} {out : Output} (halive : c.alive = true) (hresponse : c.response = none)
      (hhandler : c.webSocketHandler = none) (hout : out.fd = false) :
      Move w c { c with out := out, alive := false }

abbrev Moves (w : World) : Connection → Connection → Prop := ReflTransGen (Move w)

/-! ### The log only grows -/

theorem Sends.calls_grow {c c' : Connection} (h : Sends w c c') : c.calls <+: c'.calls := by
  obtain ⟨out, calls, rfl, -⟩ := h.frame
  exact List.prefix_append _ _

theorem WriteStep.calls_grow {c' : Connection} (h : WriteStep w c c') : c.calls <+: c'.calls := by
  cases h with
  | send hsend => exact Sends.calls_grow (ReflTransGen.single hsend)
  | _ => exact List.prefix_rfl

theorem Answer.calls_grow {c' : Connection} (h : Answer w c c') : c.calls <+: c'.calls := by
  cases h with
  | write hwrite => exact hwrite.calls_grow
  | handle | openFile => exact List.prefix_append _ _
  | setHandler | respond | awaitKey => exact List.prefix_rfl
  | connect hstate hhandler hverb hcalls hout hsends =>
      exact (List.prefix_append _ _).trans hsends.calls_grow

theorem Serve.calls_grow {c' : Connection} (h : Serve w c c') : c.calls <+: c'.calls := by
  cases h with
  | answer hanswer => exact hanswer.calls_grow
  | initialise => exact List.prefix_append _ _
  | create | buffer => exact List.prefix_rfl

theorem Move.calls_grow {c' : Connection} (h : Move w c c') : c.calls <+: c'.calls := by
  cases h with
  | serve hserve => exact hserve.calls_grow
  | disconnect halive hresponse hhandler hsends hout =>
      exact (List.prefix_append _ _).trans hsends.calls_grow
  | headers | content | key | connect | message | frame | inflate | cancel | data =>
      exact List.prefix_append _ _
  | overwrite | drop | connectNobody | receive | enlarge | vanish => exact List.prefix_rfl

theorem Thrown.calls_grow {e : Exn} {c' : Connection} (h : Thrown e c c') :
    c.calls <+: c'.calls := by
  cases h with
  | fault f => exact List.prefix_rfl
  | range e path hstate hrequest hcalls hrange => exact List.prefix_append _ _

/-! ### The output side -/

theorem Sends.out_steps {c c' : Connection} (h : Sends w c c') :
    ReflTransGen (Output.OpStep w) c.out c'.out := by
  obtain ⟨out, calls, rfl, hout, -⟩ := h.frame
  exact hout

/-- Output is produced by the operations, until the descriptor is closed. -/
theorem Move.out_steps {c' : Connection} (h : Move w c c') :
    ReflTransGen (Output.OpStep w) c.out c'.out ∨ c'.alive ≠ c.alive ∧ c'.out.fd = false := by
  cases h with
  | serve hserve =>
      refine Or.inl ?_
      cases hserve with
      | answer hanswer =>
          cases hanswer with
          | write hwrite =>
              cases hwrite with
              | send hsend => exact Sends.out_steps (ReflTransGen.single hsend)
              | _ => exact ReflTransGen.refl
          | connect hstate hhandler hverb hcalls hout hsends =>
              have hsteps := ReflTransGen.mono (fun _ _ => Output.BufferStep.op) _ _ hout
              exact hsteps.trans hsends.out_steps
          | _ => exact ReflTransGen.refl
      | _ => exact ReflTransGen.refl
  | disconnect halive hresponse hhandler hsends hout => exact Or.inr ⟨by simp [halive], hout⟩
  | vanish halive hresponse hhandler hout => exact Or.inr ⟨by simp [halive], hout⟩
  | _ => exact Or.inl ReflTransGen.refl

/-! ### Between the construction and the destruction -/

/-- The connection is as alive, and its writer as attached, as before. -/
def Attached (c c' : Connection) : Prop := c'.alive = c.alive ∧ c'.writer = c.writer

theorem Sends.attached {c c' : Connection} (h : Sends w c c') : Attached c c' := by
  obtain ⟨out, calls, rfl, -⟩ := h.frame
  exact ⟨rfl, rfl⟩

theorem Answer.attached {c' : Connection} (h : Answer w c c') : Attached c c' := by
  cases h with
  | write hwrite =>
      cases hwrite with
      | send hsend => exact Sends.attached (ReflTransGen.single hsend)
      | _ => exact ⟨rfl, rfl⟩
  | connect hstate hhandler hverb hcalls hout hsends =>
      obtain ⟨halive, hwriter⟩ := Sends.attached hsends
      exact ⟨halive, hwriter⟩
  | _ => exact ⟨rfl, rfl⟩

theorem Serve.attached {c' : Connection} (h : Serve w c c') : Attached c c' := by
  cases h with
  | answer hanswer => exact hanswer.attached
  | _ => exact ⟨rfl, rfl⟩

/-- The moves that are not those of the destructor. -/
def Take (w : World) (c c' : Connection) : Prop := Move w c c' ∧ Attached c c'

theorem Take.serve {c' : Connection} (h : Serve w c c') : Take w c c' := ⟨Move.serve h, h.attached⟩

theorem liftOut_takes {α : Type} {m : OutM α} (h : Runs (Output.OpStep w) m) (c : Connection) :
    Steps (Take w) Thrown (liftOut m) c := (serves_of_answers (answers_of_writes (liftOut_writes h c))).mono fun _ _ => Take.serve

theorem closeInternal_takes (c : Connection) : Steps (Take w) Thrown closeInternal c :=
  liftOut_takes Output.closeInternal_runs c

theorem sendError_takes (responseCode : ResponseCode) (body : Bytes) (c : Connection) :
    Steps (Take w) Thrown (sendError w responseCode body) c :=
  (serves_of_answers (sendError_answers _ _ _)).mono fun _ _ => Take.serve

/-! ### Requests -/

theorem processHeaders_takes (last : Nat) (hstate : c.state = .readingHeaders) (htaken : JustTaken c.calls c.out) :
    Steps (Take w) Thrown (processHeaders w last) c := by
  have hlength := RequestParser.block_length (c.inBuf.take last)
  unfold Ends at hlength
  refine Steps.get_bind ?_
  cases hrun : RequestParser.block.run (c.inBuf.take last) with
  | ok parsed memory =>
      rw [hrun] at hlength
      obtain ⟨verb, requestUri, headers⟩ := parsed
      refine Steps.update_bind ⟨Move.overwrite memory hstate hlength, rfl, rfl⟩ ?_
      refine Steps.mono ?_ fun _ _ => Take.serve
      exact processParsed_serves _ _ _ hstate htaken
  | error stop memory =>
      rw [hrun] at hlength
      cases stop with
      | fault f => exact fault_steps
      | reject responseCode reason =>
          refine Steps.update_bind ⟨Move.overwrite memory hstate hlength, rfl, rfl⟩ ?_
          exact sendError_takes _ _ _

theorem handleHeaders_takes (hstate : c.state = .readingHeaders) :
    Steps (Take w) Thrown (handleHeaders w) c := by
  refine Steps.get_bind ?_
  cases hfind : find (crlf ++ crlf) c.inBuf with
  | none =>
      refine Steps.ite (fun _ => ?_) fun _ => Steps.pure _
      exact (sendError_takes _ _ _).bind fun _ _ _ => Steps.pure _
  | some i =>
      refine Steps.update_bind ⟨Move.headers hstate hfind, rfl, rfl⟩ ?_
      refine Steps.bind (processHeaders_takes _ hstate (justTaken_concat rfl)) fun accepted c' _ => ?_
      refine Steps.ite (fun _ => ?_) fun _ => ?_
      · exact Steps.update_bind ⟨Move.drop _, rfl, rfl⟩ (Steps.pure _)
      · exact (closeInternal_takes _).bind fun _ _ _ => Steps.pure _

theorem handleBufferingPostData_takes (hstate : c.state = .bufferingPostData) :
    Steps (Take w) Thrown (handleBufferingPostData w) c := by
  refine Steps.get_bind (theRequest_bind_steps fun request hrequest => ?_)
  cases hconsume : request.consumeContent c.inBuf with
  | none => exact Steps.pure _
  | some consumed =>
      obtain ⟨request', inBuf⟩ := consumed
      dsimp only
      rw [← bind_assoc]
      refine Steps.bind (ReflTransGen.single ⟨Move.content hstate hrequest _ _ hconsume, rfl, rfl⟩)
        fun _ c' hrun => ?_
      injection hrun with _ hc'
      subst hc'
      refine Steps.bind (Steps.mono (serves_of_answers (handlePageRequest_answers rfl ?_)) fun _ _ => Take.serve)
        fun accepted c' _ => ?_
      · exact justTaken_concat rfl
      · exact Steps.ite (fun _ => closeInternal_takes _) fun _ => Steps.pure _

/-! ### WebSocket messages -/

theorem Sends.takes {c c' : Connection} (h : Sends w c c') : ReflTransGen (Take w) c c' :=
  ReflTransGen.mono (fun _ _ hstep => Take.serve (Serve.send hstep)) _ _ h

theorem callHandler_bind_takes {α : Type} {call : Call} {react : List Entry → List WsCall}
    {f : Unit → ConnM α} (htake : Take w c { c with calls := c.calls ++ [⟨call, c.out⟩] })
    (hf : ∀ c', c'.state = c.state → Steps (Take w) Thrown (f ()) c') :
    Steps (Take w) Thrown (callHandler w call react >>= f) c :=
  Steps.bind_of_ends (callHandler_ends call react c)
    (fun _ _ hsends => ReflTransGen.head htake hsends.takes) fun _ c' hsends => hf c' hsends.state_eq

theorem handleWebSocketTextMessage_bind_takes {α : Type} {message : Bytes} {f : Unit → ConnM α}
    (hstate : IsWebSocket c) (htaken : JustTaken c.calls c.out)
    (hf : ∀ c', c'.state = c.state → Steps (Take w) Thrown (f ()) c') :
    Steps (Take w) Thrown (handleWebSocketTextMessage w message >>= f) c := by
  rw [handleWebSocketTextMessage, bind_assoc]
  refine Steps.get_bind ?_
  cases hhandler : c.webSocketHandler with
  | none => exact hf c rfl
  | some handler =>
      exact callHandler_bind_takes
        ⟨Move.data hstate hhandler htaken ⟨message, Or.inl rfl⟩, rfl, rfl⟩ hf

theorem handleWebSocketBinaryMessage_bind_takes {α : Type} {message : Bytes} {f : Unit → ConnM α}
    (hstate : IsWebSocket c) (htaken : JustTaken c.calls c.out)
    (hf : ∀ c', c'.state = c.state → Steps (Take w) Thrown (f ()) c') :
    Steps (Take w) Thrown (handleWebSocketBinaryMessage w message >>= f) c := by
  rw [handleWebSocketBinaryMessage, bind_assoc]
  refine Steps.get_bind ?_
  cases hhandler : c.webSocketHandler with
  | none => exact hf c rfl
  | some handler =>
      exact callHandler_bind_takes
        ⟨Move.data hstate hhandler htaken ⟨message, Or.inr rfl⟩, rfl, rfl⟩ hf

theorem closeIfTooLong_takes (c : Connection) : Steps (Take w) Thrown closeIfTooLong c :=
  Steps.get_bind <| Steps.ite (fun _ => closeInternal_takes _) fun _ => Steps.pure _

theorem hixieLoop_takes (inBuf : Bytes) (fuel messageStart : Nat)
    (hstate : c.state = .handlingHixieWebSocket) :
    Steps (Take w) Thrown (hixieLoop w inBuf fuel messageStart) c := by
  induction fuel generalizing messageStart c with
  | zero => exact Steps.pure _
  | succ fuel ih =>
      rw [hixieLoop]
      cases inBuf.drop messageStart with
      | nil => exact Steps.pure _
      | cons first rest =>
          refine Steps.ite (fun _ => ?_) fun _ => ?_
          · exact (closeInternal_takes _).bind fun _ _ _ => Steps.pure _
          · cases rest.idxOf? 0xff with
            | none => exact Steps.pure _
            | some length =>
                refine Steps.update_bind ⟨Move.message _ hstate, rfl, rfl⟩ ?_
                refine handleWebSocketTextMessage_bind_takes (Or.inl hstate) (justTaken_concat rfl) ?_
                exact fun c' hc' => ih _ (hc'.trans hstate)

theorem handleHixieWebSocket_takes (hstate : c.state = .handlingHixieWebSocket) :
    Steps (Take w) Thrown (handleHixieWebSocket w) c := by
  refine Steps.get_bind (Steps.ite (fun _ => ?_) fun _ => Steps.pure _)
  refine (hixieLoop_takes _ _ _ hstate).bind fun result c' _ => ?_
  cases result with
  | none => exact Steps.pure _
  | some messageStart => exact Steps.update_bind ⟨Move.drop _, rfl, rfl⟩ (closeIfTooLong_takes _)

theorem closeInternal_bind_takes {α : Type} {f : Unit → ConnM α}
    (hf : ∀ c', Steps (Take w) Thrown (f ()) c') : Steps (Take w) Thrown (closeInternal >>= f) c :=
  (closeInternal_takes c).bind fun _ c' _ => hf c'

theorem inflateMessage_bind_takes {α : Type} {decoded : HybiPacketDecoder.Decoded}
    {f : Option Bytes → ConnM α} (hstate : c.state = .handlingHybiWebSocket)
    (hnone : ∀ c', Steps (Take w) Thrown (f none) c')
    (hsome : ∀ message c', c'.state = c.state →
      (JustTaken c.calls c.out → JustTaken c'.calls c'.out) → Steps (Take w) Thrown (f (some message)) c') :
    Steps (Take w) Thrown (inflateMessage w decoded >>= f) c := by
  unfold inflateMessage
  by_cases hneeded : decoded.deflateNeeded = true
  · rw [if_pos hneeded, bind_assoc]
    refine Steps.get_bind ?_
    by_cases hdeflate : c.perMessageDeflate = true
    · rw [if_pos hdeflate, bind_assoc]
      refine Steps.update_bind ⟨Move.inflate _ hstate hdeflate, rfl, rfl⟩ ?_
      rw [bind_assoc]
      refine Steps.get_bind ?_
      dsimp only
      cases w.inflate (c.calls ++ [⟨.inflate decoded.messageOut, c.out⟩]) decoded.messageOut with
      | none =>
          rw [bind_assoc]
          exact closeInternal_bind_takes hnone
      | some decompressed => exact hsome _ _ rfl fun htaken => htaken.append _
    · rw [if_neg hdeflate, bind_assoc]
      exact closeInternal_bind_takes hnone
  · rw [if_neg hneeded]
    exact hsome _ _ rfl id

theorem dispatchMessage_bind_takes {α : Type} {messageState : HybiPacketDecoder.MessageState}
    {message : Bytes} {f : Option Bool → ConnM α} (hstate : c.state = .handlingHybiWebSocket)
    (htaken : messageState ≠ .error → messageState ≠ .noMessage → JustTaken c.calls c.out)
    (hnone : ∀ c', Steps (Take w) Thrown (f none) c')
    (hsome : ∀ goOn c', c'.state = c.state → Steps (Take w) Thrown (f (some goOn)) c') :
    Steps (Take w) Thrown (dispatchMessage w messageState message >>= f) c := by
  cases messageState with
  | noMessage => exact hsome _ _ rfl
  | textMessage =>
      rw [dispatchMessage, bind_assoc]
      exact handleWebSocketTextMessage_bind_takes (Or.inr hstate) (htaken (by simp) (by simp))
        (hsome true)
  | binaryMessage =>
      rw [dispatchMessage, bind_assoc]
      exact handleWebSocketBinaryMessage_bind_takes (Or.inr hstate) (htaken (by simp) (by simp))
        (hsome true)
  | error =>
      rw [dispatchMessage, bind_assoc]
      exact closeInternal_bind_takes hnone
  | ping =>
      rw [dispatchMessage, bind_assoc]
      exact Steps.bind_of_ends (sendHybi_sends _ _ c) (fun _ _ => Sends.takes)
        fun _ c' hsends => hsome true c' (Sends.state_eq hsends)
  | pong => exact hsome _ _ rfl
  | close =>
      rw [dispatchMessage, bind_assoc]
      exact closeInternal_bind_takes hnone

/-- The end of a turn of `hybiLoop`, behind its `switch`. -/
def hybiNextTurn (w : World) (inBuf : Bytes) (fuel messageStart : Nat) : Option Bool → ConnM (Option Nat)
  | none => return none
  | some true => hybiLoop w inBuf fuel messageStart
  | some false => return some messageStart

/-- The rest of a turn of `hybiLoop`, once the frame is taken. -/
def hybiTurn (w : World) (inBuf : Bytes) (fuel : Nat) (decoded : HybiPacketDecoder.Decoded) :
    ConnM (Option Nat) := do
  match ← inflateMessage w decoded with
  | none => return none
  | some message =>
      hybiNextTurn w inBuf fuel decoded.messageStart (← dispatchMessage w decoded.messageState message)

theorem hybiLoop_takes (inBuf : Bytes) (fuel messageStart : Nat)
    (hstate : c.state = .handlingHybiWebSocket) :
    Steps (Take w) Thrown (hybiLoop w inBuf fuel messageStart) c := by
  induction fuel generalizing messageStart c with
  | zero => exact Steps.pure _
  | succ fuel ih =>
      rw [hybiLoop]
      cases hdecode : HybiPacketDecoder.decodeNextMessage inBuf messageStart [] false with
      | error f => exact fault_steps
      | ok decoded =>
          have deliver : ∀ c' : Connection, c'.state = .handlingHybiWebSocket →
              (messageStart < decoded.messageStart → JustTaken c'.calls c'.out) →
              Steps (Take w) Thrown (hybiTurn w inBuf fuel decoded) c' := by
            intro c' hstate htaken
            rw [hybiTurn]
            refine inflateMessage_bind_takes hstate (fun _ => Steps.pure _) ?_
            intro message c'' hc'' hkeep
            refine dispatchMessage_bind_takes (hc''.trans hstate) (fun herror hnone => ?_)
              (fun _ => Steps.pure _) fun goOn c₃ hc₃ => ?_
            · exact hkeep (htaken (HybiPacketDecoder.decodeNextMessage_moves hdecode herror hnone))
            · cases goOn with
              | true => exact ih _ (hc₃.trans (hc''.trans hstate))
              | false => exact Steps.pure _
          dsimp only
          refine Steps.ite (fun _ => ?_) fun hstay => deliver c hstate fun hmoved => absurd hmoved hstay
          exact Steps.update_bind ⟨Move.frame _ hstate, rfl, rfl⟩ (deliver _ hstate fun _ => justTaken_concat rfl)

theorem handleHybiWebSocket_takes (hstate : c.state = .handlingHybiWebSocket) :
    Steps (Take w) Thrown (handleHybiWebSocket w) c := by
  refine Steps.get_bind (Steps.ite (fun _ => ?_) fun _ => Steps.pure _)
  refine (hybiLoop_takes _ _ _ hstate).bind fun result c' _ => ?_
  cases result with
  | none => exact Steps.pure _
  | some numBytesDecoded => exact Steps.update_bind ⟨Move.drop _, rfl, rfl⟩ (closeIfTooLong_takes _)

theorem startHixie_takes {before : List Entry} {key : Bytes} {out : Output}
    (hstate : c.state = .readingWebSocketKey3) (hcalls : c.calls = before ++ [⟨.key key, out⟩])
    (hout : ReflTransGen (Output.BufferStep w) out c.out) : Steps (Take w) Thrown (startHixie w) c := by
  rw [startHixie]
  cases hhandler : c.webSocketHandler with
  | none =>
      refine Steps.update_bind ⟨Move.connectNobody hstate hhandler, rfl, rfl⟩ (Steps.get_bind ?_)
      dsimp only
      rw [hhandler]
      exact Steps.pure _
  | some handler =>
      unfold Steps
      rw [ends_bind, ends_modify, ends_bind, ends_get]
      dsimp only
      rw [hhandler]
      refine (callHandler_ends _ _ _).mono (fun _ c' hsends => ?_) fun _ _ => False.elim
      rw [← hhandler] at hsends
      exact ReflTransGen.head ⟨Move.connect hstate hhandler hcalls hout, rfl, rfl⟩
        (Sends.takes hsends)

theorem handleWebSocketKey3_takes (hstate : c.state = .readingWebSocketKey3) :
    Steps (Take w) Thrown (handleWebSocketKey3 w) c := by
  refine Steps.get_bind (Steps.ite (fun hlength => ?_) fun _ => Steps.pure _)
  refine theRequest_bind_steps fun request _ => ?_
  refine Steps.update_bind ⟨Move.key hstate hlength, rfl, rfl⟩ ?_
  refine liftOut_bind_steps (Output.hixieHandshake_runs _ _ _) (fun c out hstep => ?_)
    fun _ out hout => ?_
  · exact Take.serve (Serve.send (SendStep.output hstep.op))
  · exact startHixie_takes hstate rfl hout

/-! ### Events -/

theorem handleNewDataFrom_takes (fuel : Nat) (c : Connection) :
    Steps (Take w) Thrown (handleNewDataFrom w fuel) c := by
  induction fuel generalizing c with
  | zero => exact Steps.pure _
  | succ fuel ih =>
      rw [handleNewDataFrom]
      refine Steps.get_bind ?_
      cases hstate : c.state with
      | readingHeaders =>
          refine (handleHeaders_takes hstate).bind fun _ c' _ => ?_
          exact Steps.ite (fun _ => ih c') fun _ => Steps.pure _
      | readingWebSocketKey3 => exact handleWebSocketKey3_takes hstate
      | handlingHixieWebSocket => exact handleHixieWebSocket_takes hstate
      | handlingHybiWebSocket => exact handleHybiWebSocket_takes hstate
      | bufferingPostData => exact handleBufferingPostData_takes hstate
      | awaitingResponseBegin => exact Steps.pure _
      | sendingResponseHeaders => exact Steps.pure _
      | sendingResponseBody => exact Steps.pure _
      | invalid => exact fault_steps

theorem handleDataReadyForRead_takes (result : ReadResult) (c : Connection) :
    Steps (Take w) Thrown (handleDataReadyForRead w result) c := by
  refine Steps.get_bind (Steps.ite (fun hopen => ?_) fun _ => Steps.pure _)
  have hopen : c.closed = false := by simpa using hopen
  cases result with
  | error => exact Steps.update ⟨Move.enlarge hopen, rfl, rfl⟩
  | endOfStream => exact Steps.update_bind ⟨Move.enlarge hopen, rfl, rfl⟩ (closeInternal_takes _)
  | data received =>
      refine Steps.update_bind ⟨Move.receive received.val hopen, rfl, rfl⟩ (Steps.get_bind ?_)
      exact handleNewDataFrom_takes _ _

theorem cancelResponse_bind_moves {α : Type} {f : Unit → ConnM α}
    (hf : ∀ c', c'.alive = c.alive → c'.response = none → Steps (Move w) Thrown (f ()) c') :
    Steps (Move w) Thrown (cancelResponse >>= f) c := by
  rw [cancelResponse, bind_assoc]
  refine Steps.get_bind ?_
  by_cases hresponse : c.response.isSome = true
  · rw [if_pos hresponse]
    refine Steps.bind (ReflTransGen.single (Move.cancel hresponse)) fun _ c' hrun => ?_
    injection hrun with _ hc'
    subst hc'
    exact hf _ rfl rfl
  · rw [if_neg hresponse, pure_bind]
    exact hf c rfl (by simpa using hresponse)

theorem closeFd_after (o : Output) : After closeFd o fun _ o' => o'.fd = false := by
  simp [closeFd, Output.record]

theorem destroy_moves (halive : c.alive = true) : Steps (Move w) Thrown (destroy w) c := by
  refine cancelResponse_bind_moves fun c hc hresponse => ?_
  have halive := hc.trans halive
  unfold Steps
  rw [ends_bind, ends_get]
  cases hhandler : c.webSocketHandler with
  | none =>
      simp only [ends_bind, ends_liftOut, ends_modify]
      refine (closeFd_after _).mono fun _ out hout => ReflTransGen.single ?_
      rw [← hhandler]
      exact Move.vanish halive hresponse hhandler hout
  | some handler =>
      rw [ends_bind]
      refine (callHandler_ends _ _ _).mono (fun _ c' hsends => ?_) fun _ _ => False.elim
      simp only [ends_bind, ends_liftOut, ends_modify]
      refine (closeFd_after _).mono fun _ out hout => ReflTransGen.single ?_
      exact Move.disconnect halive hresponse hhandler hsends hout

theorem step_takes {event : Event} (hevent : event ≠ .destroy) (c : Connection) :
    Steps (Take w) Thrown (step w event) c := by
  refine Steps.get_bind ?_
  cases event with
  | readable result =>
      exact Steps.ite (fun _ => handleDataReadyForRead_takes result c) fun _ => fault_steps
  | writable =>
      refine Steps.ite (fun _ => ?_) fun _ => fault_steps
      exact liftOut_takes Output.handleDataReadyForWrite_runs c
  | writer call =>
      refine Steps.ite (fun _ => Steps.ite (fun _ => ?_) fun _ => fault_steps) fun _ => Steps.pure _
      exact (serves_of_answers (answers_of_writes (writerCall_writes call c))).mono
        fun _ _ => Take.serve
  | socket call =>
      refine Steps.ite (fun _ => ?_) fun _ => fault_steps
      exact ((wsCall_sends call).steps c).mono fun _ _ hstep => Take.serve (Serve.send hstep)
  | destroy => exact absurd rfl hevent

theorem step_moves (event : Event) (c : Connection) : Steps (Move w) Thrown (step w event) c := by
  by_cases hevent : event = .destroy
  · subst hevent
    exact Steps.get_bind (Steps.ite (fun halive => destroy_moves halive) fun _ => fault_steps)
  · exact (step_takes hevent c).mono fun _ _ => And.left

/-! ### Runs -/

theorem run_append {events events' : List Event} {c' : Connection} (h : run w events c = .ok c') :
    run w (events ++ events') c = run w events' c' := by
  induction events generalizing c with
  | nil =>
      injection h with h
      rw [h, List.nil_append]
  | cons event events ih =>
      rw [run] at h
      rw [List.cons_append, run]
      cases hrun : (step w event).run c with
      | ok result c₁ =>
          rw [hrun] at h
          exact ih h
      | error e c₁ =>
          rw [hrun] at h
          cases e with
          | exception e => exact ih h
          | fault f => injection h

/-- What a run begins with is a run. -/
theorem exists_run_of_append {before after : List Event} {c' : Connection}
    (h : run w (before ++ after) c = .ok c') : ∃ c₁, run w before c = .ok c₁ := by
  induction before generalizing c with
  | nil => exact ⟨c, rfl⟩
  | cons event before ih =>
      rw [List.cons_append, run] at h
      rw [run]
      cases hrun : (step w event).run c with
      | ok result c₁ =>
          rw [hrun] at h
          exact ih h
      | error e c₁ =>
          rw [hrun] at h
          cases e with
          | exception e => exact ih h
          | fault f => cases h

/-- What every step preserves, however it ends, a run preserves. -/
theorem run_induction (inv : Connection → Prop)
    (hstep : ∀ event c, inv c → Ends (step w event) c (fun _ c' => inv c') fun _ c' => inv c')
    {events : List Event} {c c' : Connection} (h : run w events c = .ok c') (hc : inv c) :
    inv c' := by
  induction events generalizing c with
  | nil =>
      injection h with h
      exact h ▸ hc
  | cons event events ih =>
      have hends := hstep event c hc
      unfold Ends at hends
      rw [run] at h
      cases hrun : (step w event).run c with
      | ok result c₁ =>
          rw [hrun] at hends h
          exact ih h hends
      | error e c₁ =>
          rw [hrun] at hends h
          cases e with
          | exception e => exact ih h hends
          | fault f => injection h

/-- What every move preserves, and what precedes an exception too, a run preserves. -/
theorem run_invariant (inv : Connection → Prop) (hmove : ∀ c c', inv c → Move w c c' → inv c')
    (hthrown : ∀ e c c', inv c → Thrown e c c' → inv c') {events : List Event} {c c' : Connection}
    (h : run w events c = .ok c') (hc : inv c) : inv c' := by
  refine run_induction inv (fun event c hc => ?_) h hc
  refine Ends.mono (step_moves event c) (fun _ c' hsteps => ?_) fun e c' hends => ?_
  · exact invariant_of_steps inv hmove hsteps hc
  · obtain ⟨c₁, hsteps, hlast⟩ := hends
    exact hthrown e c₁ c' (invariant_of_steps inv hmove hsteps hc) hlast

end Seasocks.Connection
