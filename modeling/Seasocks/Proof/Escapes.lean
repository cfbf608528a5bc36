import Seasocks.Proof.Inflating
import Seasocks.Proof.Responses

/-!
# What leaves a run

Besides the exceptions for bad ranges, only the decoder of Hybi frames is left before its end, for a length
that is cut off behind another frame or a payload of `2 ^ 32` bytes. A run whose reads bring it to neither
is left exactly where a file is opened for a request with a bad range.
-/

namespace Seasocks.Connection

open Program Relation WebSocketFrame HybiPacketDecoder

variable {w : World} {c : Connection}

/-! ### Away from the decoder -/

/-- A program that has lost its meaning has not lost it while frames are taken. -/
def Elsewhere (e : Exn) (c : Connection) : Prop := ∀ f, e = .fault f → c.state ≠ .handlingHybiWebSocket

abbrev LeftElsewhere {α : Type} (m : ConnM α) (c : Connection) : Prop :=
  Ends m c (fun _ _ => True) Elsewhere

theorem fault_elsewhere {α : Type} {f : Fault} (hstate : c.state ≠ .handlingHybiWebSocket) :
    LeftElsewhere (fault f : ConnM α) c := ends_fault.mpr fun _ _ => hstate

theorem LeftElsewhere.of_returns {α : Type} {m : ConnM α} {post : α → Connection → Prop}
    (h : Ends m c post fun _ _ => False) : LeftElsewhere m c :=
  h.mono (fun _ _ _ => trivial) fun _ _ => False.elim

theorem liftOut_elsewhere {α : Type} (m : OutM α) : LeftElsewhere (liftOut m) c :=
  ends_liftOut.mpr (After.of_forall fun _ _ => trivial)

theorem theRequest_bind_elsewhere {α : Type} {f : PageRequest → ConnM α}
    (hstate : c.state ≠ .handlingHybiWebSocket)
    (hf : ∀ request, c.request = some request → LeftElsewhere (f request) c) :
    LeftElsewhere (theRequest >>= f) c := by
  rw [LeftElsewhere, ends_bind, theRequest, ends_bind, ends_get]
  cases hrequest : c.request with
  | none => exact fault_elsewhere (α := PageRequest) hstate
  | some request => exact hf request hrequest

theorem sendError_elsewhere (responseCode : ResponseCode) (body : Bytes) (c : Connection) :
    LeftElsewhere (sendError w responseCode body) c := by
  rw [LeftElsewhere, sendError, ends_bind, ends_get, ends_ite]
  exact ⟨fun hhixie => fault_elsewhere (by simp [hhixie]), fun _ => liftOut_elsewhere _⟩

theorem send404_elsewhere (c : Connection) : LeftElsewhere (send404 w) c := by
  rw [LeftElsewhere, send404, ends_bind, ends_get]
  dsimp only
  cases w.embeddedContent c.getRequestUri with
  | some embedded => exact liftOut_elsewhere _
  | none =>
      dsimp only
      rw [ends_ite]
      exact ⟨fun _ => liftOut_elsewhere _, fun _ => sendError_elsewhere _ _ c⟩

theorem sendStaticData_elsewhere (hstate : c.state ≠ .handlingHybiWebSocket) :
    LeftElsewhere (sendStaticData w) c := by
  rw [LeftElsewhere, sendStaticData, ends_bind, ends_get]
  dsimp only
  cases (trimQuery (w.staticPath ++ c.getRequestUri)).getLast? with
  | none => exact fault_elsewhere hstate
  | some last =>
      dsimp only
      rw [record, ends_bind, ends_modify]
      cases w.openFile c.calls _ with
      | none => exact send404_elsewhere _
      | some file =>
          dsimp only
          generalize (if c.getHeader (ascii "Range") = [] then _ else _
            : Except LogicError (Option (List Range))) = parsed
          cases parsed with
          | error e => exact ends_throw.mpr fun f hfault => by cases hfault
          | ok ranges =>
              cases ranges with
              | none => exact sendError_elsewhere _ _ _
              | some ranges =>
                  dsimp only
                  rw [liftChecked, ends_bind, ends_liftOut]
                  refine After.of_forall fun result out => ?_
                  cases result with
                  | ok sent => exact trivial
                  | error f => exact fault_elsewhere hstate

theorem handleResponse_elsewhere (response : Response) (hstate : c.state ≠ .handlingHybiWebSocket) :
    LeftElsewhere (handleResponse w response) c := by
  rw [LeftElsewhere, handleResponse, ends_bind, ends_get, ends_ite]
  refine ⟨fun _ => fault_elsewhere hstate, fun _ => ?_⟩
  rw [ends_bind, ends_modify, ends_bind]
  exact (writerCalls_return _ _).mono (fun _ _ _ => trivial) fun _ _ => False.elim

/-! ### Serving a request -/

/-- The handshake ends in the state in which frames are taken, with nothing behind it. -/
theorem handleHybiHandshake_elsewhere (webSocketVersion : Int) (webSocketKey : Bytes)
    (hstate : c.state ≠ .handlingHybiWebSocket) :
    LeftElsewhere (handleHybiHandshake w webSocketVersion webSocketKey) c := by
  rw [LeftElsewhere, handleHybiHandshake, ends_ite]
  refine ⟨fun _ => sendError_elsewhere _ _ c, fun _ => ?_⟩
  refine theRequest_bind_elsewhere hstate fun request _ => ?_
  rw [LeftElsewhere, ends_bind, ends_get, ends_bind, ends_liftOut]
  refine After.of_forall fun _ out => ?_
  cases c.webSocketHandler with
  | none => trivial
  | some handler =>
      dsimp only
      rw [ends_bind]
      exact (callHandler_ends _ _ _).mono (fun _ _ _ => trivial) fun _ _ => False.elim

theorem handleUpgrade_elsewhere (request : PageRequest) (hstate : c.state ≠ .handlingHybiWebSocket) :
    LeftElsewhere (handleUpgrade w request) c := by
  rw [LeftElsewhere, handleUpgrade, ends_bind, ends_modify]
  cases stoi (request.getHeader (ascii "Sec-WebSocket-Version")) with
  | error e => exact sendError_elsewhere _ _ _
  | ok webSocketVersion =>
      dsimp only
      rw [ends_ite, ends_ite]
      refine ⟨fun _ => send404_elsewhere _, fun _ => ⟨fun _ => trivial, fun _ => ?_⟩⟩
      exact handleHybiHandshake_elsewhere _ _ hstate

theorem handlePageRequest_elsewhere (hstate : c.state ≠ .handlingHybiWebSocket) :
    LeftElsewhere (handlePageRequest w) c := by
  refine theRequest_bind_elsewhere hstate fun request _ => ?_
  rw [LeftElsewhere, ends_bind, ends_get]
  dsimp only
  rw [record, ends_bind, ends_modify]
  cases w.handle c.calls request with
  | throws what => exact sendError_elsewhere _ _ _
  | throwsUnknown => exact sendError_elsewhere _ _ _
  | response response => exact handleResponse_elsewhere response hstate
  | unhandled =>
      dsimp only
      rw [ends_ite]
      exact ⟨fun _ => handleUpgrade_elsewhere request hstate, fun _ => sendStaticData_elsewhere hstate⟩

theorem processRequest_elsewhere (verb : Verb) (requestUri : Bytes) (headers : HeaderMap)
    (hstate : c.state ≠ .handlingHybiWebSocket) :
    LeftElsewhere (processRequest w verb requestUri headers) c := by
  simp only [LeftElsewhere, processRequest, ends_bind, ends_modify]
  split
  · exact liftOut_elsewhere _
  · exact liftOut_elsewhere _
  · rw [ends_ite, ends_ite]
    refine ⟨fun _ => sendError_elsewhere _ _ _, fun _ => ⟨fun _ => ?_, fun _ => trivial⟩⟩
    exact handlePageRequest_elsewhere hstate

/-- Negotiating compression changes no state. -/
theorem parsePerMessageDeflateHeader_bind_elsewhere {α : Type} {header : Bytes} {f : Unit → ConnM α}
    (hstate : c.state ≠ .handlingHybiWebSocket)
    (hf : ∀ c : Connection, c.state ≠ .handlingHybiWebSocket → LeftElsewhere (f ()) c) :
    LeftElsewhere (parsePerMessageDeflateHeader header >>= f) c := by
  rw [parsePerMessageDeflateHeader]
  induction split header 59 generalizing c with
  | nil => exact hf c hstate
  | cons extField extFields ih =>
      rw [List.forM_cons, bind_assoc, LeftElsewhere, ends_bind, ends_ite]
      exact ⟨fun _ => ih hstate, fun _ => ih hstate⟩

theorem processParsed_elsewhere (verb : Verb) (requestUri : Bytes) (headers : HeaderMap)
    (hstate : c.state ≠ .handlingHybiWebSocket) :
    LeftElsewhere (processParsed w verb requestUri headers) c := by
  rw [LeftElsewhere, processParsed, ends_ite, ends_ite]
  refine ⟨fun _ => ⟨fun _ => sendError_elsewhere _ _ c, fun _ => ?_⟩, fun _ => ?_⟩
  · rw [ends_bind, ends_modify]
    dsimp only
    rw [ends_ite, ends_ite]
    refine ⟨fun _ => send404_elsewhere _, fun _ => ⟨fun _ => ?_, fun _ => ?_⟩⟩
    · exact parsePerMessageDeflateHeader_bind_elsewhere hstate fun c hc =>
        processRequest_elsewhere _ _ _ hc
    · exact processRequest_elsewhere _ _ _ hstate
  · exact processRequest_elsewhere _ _ _ hstate

theorem processHeaders_elsewhere (last : Nat) (hstate : c.state ≠ .handlingHybiWebSocket) :
    LeftElsewhere (processHeaders w last) c := by
  rw [LeftElsewhere, processHeaders, ends_bind, ends_get]
  cases RequestParser.block.run (c.inBuf.take last) with
  | ok parsed memory => exact processParsed_elsewhere _ _ _ hstate
  | error stop memory =>
      cases stop with
      | fault f => exact fault_elsewhere hstate
      | reject responseCode reason => exact sendError_elsewhere _ _ _

/-! ### Turns -/

theorem handleHeaders_elsewhere (hstate : c.state ≠ .handlingHybiWebSocket) :
    LeftElsewhere (handleHeaders w) c := by
  rw [LeftElsewhere, handleHeaders, ends_bind, ends_get]
  cases find (crlf ++ crlf) c.inBuf with
  | none =>
      dsimp only
      rw [ends_ite]
      refine ⟨fun _ => ?_, fun _ => trivial⟩
      rw [ends_bind]
      exact (sendError_elsewhere _ _ c).mono (fun _ _ _ => trivial) fun _ _ => id
  | some i =>
      dsimp only
      rw [record, ends_bind, ends_modify, ends_bind]
      have hprocess := @processHeaders_elsewhere w
        { c with calls := c.calls ++ [⟨.headers (c.inBuf.take (i + 4)), c.out⟩] } (i + 2) hstate
      refine hprocess.mono (fun accepted c' _ => ?_) fun _ _ => id
      rw [ends_ite]
      refine ⟨fun _ => trivial, fun _ => ?_⟩
      rw [ends_bind]
      exact (liftOut_elsewhere _).mono (fun _ _ _ => trivial) fun _ _ => id

theorem handleBufferingPostData_elsewhere (hstate : c.state ≠ .handlingHybiWebSocket) :
    LeftElsewhere (handleBufferingPostData w) c := by
  rw [LeftElsewhere, handleBufferingPostData, ends_bind, ends_get]
  refine theRequest_bind_elsewhere hstate fun request _ => ?_
  cases request.consumeContent c.inBuf with
  | none => trivial
  | some consumed =>
      dsimp only
      rw [LeftElsewhere, record, ends_bind, ends_modify, ends_bind, ends_modify, ends_bind]
      refine (handlePageRequest_elsewhere (by simp)).mono (fun accepted c' _ => ?_) fun _ _ => id
      rw [ends_ite]
      exact ⟨fun _ => liftOut_elsewhere _, fun _ => trivial⟩

theorem handleWebSocketKey3_elsewhere (hstate : c.state ≠ .handlingHybiWebSocket) :
    LeftElsewhere (handleWebSocketKey3 w) c := by
  rw [LeftElsewhere, handleWebSocketKey3, ends_bind, ends_get, ends_ite]
  refine ⟨fun _ => theRequest_bind_elsewhere hstate fun request _ => ?_, fun _ => trivial⟩
  dsimp only
  rw [LeftElsewhere, record, ends_bind, ends_modify, ends_bind, ends_liftOut]
  refine After.of_forall fun _ out => ?_
  rw [startHixie, ends_bind, ends_modify, ends_bind, ends_get]
  cases c.webSocketHandler with
  | none => trivial
  | some handler => exact LeftElsewhere.of_returns (callHandler_ends _ _ _)

/-- A Hixie connection stays one. -/
theorem handleHixieWebSocket_elsewhere (hstate : c.state = .handlingHixieWebSocket) :
    LeftElsewhere (handleHixieWebSocket w) c := by
  refine Ends.mono (handleHixieWebSocket_takes hstate) (fun _ _ _ => trivial) ?_
  rintro e c' ⟨c₁, htakes, hlast⟩
  have hhixie : c₁.state = .handlingHixieWebSocket :=
    invariant_of_steps (fun c => c.state = .handlingHixieWebSocket)
      (fun c₁ c₂ h htake => (htake.1.webSocket (Or.inl h)).trans h) htakes hstate
  cases hlast with
  | fault f => exact fun _ _ => by simp [hhixie]
  | range e path => exact fun f hfault => by cases hfault

/-! ### The decoder -/

/-- A frame the loop goes on behind, if it can be decompressed. -/
def GoesOn (deflate : Bool) (stream : Bytes) : Prop :=
  ∃ f size, scan stream = .frame f size ∧ messageStateOf f.opcode ≠ .error ∧
    messageStateOf f.opcode ≠ .close ∧ (f.compressed = true → deflate = true)

/-- The decoder can read the frames from `messageStart` on that the loop gets to. -/
def FramesReadable (deflate : Bool) (buffer : Bytes) (messageStart : Nat) : Prop :=
  ∀ count, (∀ k < count, GoesOn deflate ((buffer.drop messageStart).drop
      (boundary (buffer.drop messageStart) k))) →
    Readable buffer (messageStart + boundary (buffer.drop messageStart) count)

theorem framesReadable_iff {deflate : Bool} {buffer : Bytes} {messageStart : Nat} :
    FramesReadable deflate buffer messageStart ↔ Readable buffer messageStart ∧
      ∀ f size, scan (buffer.drop messageStart) = .frame f size →
        GoesOn deflate (buffer.drop messageStart) →
        FramesReadable deflate buffer (messageStart + size) := by
  unfold FramesReadable
  rw [forall_passed_iff (p := fun start => Readable buffer (messageStart + start))]
  simp only [Nat.add_zero, List.drop_drop, Nat.add_assoc]

theorem readable_of_frame {buffer : Bytes} {messageStart : Nat} {f : Frame} {size : Nat}
    (hscan : scan (buffer.drop messageStart) = .frame f size) (hpayload : f.payload.length < 2 ^ 32) :
    Readable buffer messageStart := by
  constructor
  · intro hcut
    have hdecode := decodeNextMessage_frame [] false hscan hpayload
    rw [decodeNextMessage_cutOff [] false hcut] at hdecode
    cases hdecode
  · rintro ⟨f', size', hscan', hlong⟩
    rw [hscan] at hscan'
    injection hscan' with hf
    rw [← hf] at hlong
    omega

/-- A frame with nothing behind it. -/
theorem framesReadable_of_frame {deflate : Bool} {buffer : Bytes} {messageStart : Nat} {f : Frame}
    (hscan : scan (buffer.drop messageStart) = .frame f (buffer.length - messageStart))
    (hpayload : f.payload.length < 2 ^ 32) : FramesReadable deflate buffer messageStart := by
  refine framesReadable_iff.mpr ⟨readable_of_frame hscan hpayload, fun f' size hscan' _ => ?_⟩
  rw [hscan] at hscan'
  injection hscan' with _ hsize
  have hend : buffer.drop (messageStart + size) = [] := List.drop_eq_nil_of_le (by omega)
  refine framesReadable_iff.mpr ⟨⟨?_, ?_⟩, fun f'' size' hscan'' _ => ?_⟩
  · rintro ⟨b0, b1, rest, hdrop, -⟩
    rw [hend] at hdrop
    cases hdrop
  · rintro ⟨f'', size', hscan'', -⟩
    rw [hend] at hscan''
    cases hscan''
  · rw [hend] at hscan''
    cases hscan''

theorem inflateMessage_returns (decoded : Decoded) (c : Connection) :
    Ends (inflateMessage w decoded) c
      (fun message c' => c'.perMessageDeflate = c.perMessageDeflate ∧
        (message ≠ none → decoded.deflateNeeded = true → c.perMessageDeflate = true))
      fun _ _ => False := by
  have closed : Ends (closeInternal >>= fun _ => pure (none : Option Bytes)) c
      (fun message c' => c'.perMessageDeflate = c.perMessageDeflate ∧
        (message ≠ none → decoded.deflateNeeded = true → c.perMessageDeflate = true))
      fun _ _ => False := by
    rw [ends_bind]
    exact (closeInternal_idle c).mono (fun _ _ h => ⟨h.1.deflate, absurd rfl⟩) fun _ _ => id
  by_cases hdeflate : c.perMessageDeflate = true
  · refine (inflateMessage_idle decoded hdeflate).mono (fun _ c' h => ⟨?_, fun _ _ => hdeflate⟩)
      fun _ _ => id
    exact h.1.deflate.trans (handed_fields decoded c).2.1
  · rw [inflateMessage, ends_ite]
    refine ⟨fun _ => ?_, fun hplain => ⟨rfl, fun _ hneeded => absurd hneeded hplain⟩⟩
    rw [ends_bind, ends_get, ends_ite]
    exact ⟨fun h => absurd h hdeflate, fun _ => closed⟩

/-- The rest of a turn of the loop returns if the next one does. -/
theorem turn_returns {inBuf : Bytes} {fuel : Nat} (decoded : Decoded)
    (hnext : ∀ c₁ : Connection, c₁.perMessageDeflate = c.perMessageDeflate →
      (decoded.deflateNeeded = true → c.perMessageDeflate = true) → decoded.messageState ≠ .error →
      decoded.messageState ≠ .close → decoded.messageState ≠ .noMessage →
      Ends (hybiLoop w inBuf fuel decoded.messageStart) c₁ (fun _ _ => True) fun _ _ => False) :
    Ends (hybiTurn w inBuf fuel decoded) c (fun _ _ => True) fun _ _ => False := by
  rw [hybiTurn, ends_bind]
  refine (inflateMessage_returns decoded c).mono (fun message c₁ h₁ => ?_) fun _ _ => id
  cases message with
  | none => trivial
  | some message =>
      dsimp only
      rw [ends_bind]
      refine (dispatchMessage_idle _ _).mono (fun goOn c₂ h₂ => ?_) fun _ _ => id
      obtain ⟨hidle, hgoOn⟩ := h₂
      rcases goOn with - | - | -
      · trivial
      · trivial
      · obtain ⟨herror, hclose, hsome⟩ := hgoOn
        exact hnext c₂ (hidle.deflate.trans h₁.1) (h₁.2 (by simp)) herror hclose hsome

theorem hybiLoop_returns {inBuf : Bytes} (fuel messageStart : Nat)
    (hreadable : FramesReadable c.perMessageDeflate inBuf messageStart) :
    Ends (hybiLoop w inBuf fuel messageStart) c (fun _ _ => True) fun _ _ => False := by
  induction fuel generalizing messageStart c with
  | zero => trivial
  | succ fuel ih =>
      obtain ⟨⟨hwhole, hsize⟩, hbehind⟩ := framesReadable_iff.mp hreadable
      rw [hybiLoop]
      cases hscan : scan (inBuf.drop messageStart) with
      | invalid =>
          rw [decodeNextMessage_invalid [] false hscan]
          dsimp only
          rw [if_neg (Nat.lt_irrefl _)]
          exact turn_returns ⟨.error, [], false, messageStart⟩
            fun _ _ _ herror => absurd rfl herror
      | incomplete =>
          rw [decodeNextMessage_incomplete [] false hscan hwhole]
          dsimp only
          rw [if_neg (Nat.lt_irrefl _)]
          exact turn_returns ⟨.noMessage, [], _, messageStart⟩
            fun _ _ _ _ _ hsome => absurd rfl hsome
      | frame f size =>
          have hpayload : f.payload.length < 2 ^ 32 := by
            by_contra hlong
            exact hsize ⟨f, size, hscan, Nat.le_of_not_lt hlong⟩
          have hpositive := (scan_size hscan).1
          rw [decodeNextMessage_frame [] false hscan hpayload]
          dsimp only
          rw [if_pos (by omega), record, ends_bind, ends_modify]
          refine turn_returns ⟨messageStateOf f.opcode, f.payload, f.compressed, _⟩
            fun c₁ hdeflate hcompressed herror hclose _ => ?_
          refine ih _ ?_
          rw [hdeflate]
          exact hbehind f size hscan ⟨f, size, hscan, herror, hclose, hcompressed⟩

theorem handleHybiWebSocket_returns (hreadable : FramesReadable c.perMessageDeflate c.inBuf 0) :
    Ends (handleHybiWebSocket w) c (fun _ _ => True) fun _ _ => False := by
  rw [handleHybiWebSocket, ends_bind, ends_get, ends_ite]
  refine ⟨fun _ => ?_, fun _ => trivial⟩
  rw [ends_bind]
  refine (hybiLoop_returns _ 0 hreadable).mono (fun numBytesDecoded c' _ => ?_) fun _ _ => id
  cases numBytesDecoded with
  | none => trivial
  | some numBytesDecoded =>
      dsimp only
      rw [ends_bind, ends_modify]
      exact (closeIfTooLong_idle _).mono (fun _ _ _ => trivial) fun _ _ => id

/-! ### Events -/

/-- Every turn after a read finds frames the decoder can read. -/
def ReadsReadable (w : World) : Event → Connection → Prop
  | .readable (.data received), c =>
      c.closed = false → ∀ c', Turns w (afterRead c received.val) c' →
        c'.state = .handlingHybiWebSocket → FramesReadable c'.perMessageDeflate c'.inBuf 0
  | _, _ => True

theorem handleNewDataFrom_elsewhere (fuel : Nat)
    (hturns : ∀ c', Turns w c c' → c'.state = .handlingHybiWebSocket →
      FramesReadable c'.perMessageDeflate c'.inBuf 0) : LeftElsewhere (handleNewDataFrom w fuel) c := by
  induction fuel generalizing c with
  | zero => trivial
  | succ fuel ih =>
      rw [LeftElsewhere, handleNewDataFrom, ends_bind, ends_get]
      cases hstate : c.state with
      | readingHeaders =>
          dsimp only
          rw [ends_bind]
          refine ((handleHeaders_elsewhere (by simp [hstate])).and (ends_run _ _)).mono ?_
            fun _ _ h => h.1
          rintro goOn c₁ ⟨-, hrun⟩
          rw [ends_ite]
          refine ⟨fun hgoOn => ?_, fun _ => trivial⟩
          subst hgoOn
          exact ih fun c' h => hturns c' (Turns.next hstate hrun h)
      | readingWebSocketKey3 => exact handleWebSocketKey3_elsewhere (by simp [hstate])
      | handlingHixieWebSocket => exact handleHixieWebSocket_elsewhere hstate
      | handlingHybiWebSocket =>
          exact LeftElsewhere.of_returns (handleHybiWebSocket_returns (hturns c (Turns.first c) hstate))
      | bufferingPostData => exact handleBufferingPostData_elsewhere (by simp [hstate])
      | awaitingResponseBegin | sendingResponseHeaders | sendingResponseBody => trivial
      | invalid => exact fault_elsewhere (by simp [hstate])

theorem handleDataReadyForRead_elsewhere (result : ReadResult)
    (hread : ReadsReadable w (.readable result) c) :
    LeftElsewhere (handleDataReadyForRead w result) c := by
  rw [LeftElsewhere, handleDataReadyForRead, ends_bind, ends_get, ends_ite]
  refine ⟨fun hopen => ?_, fun _ => trivial⟩
  have hopen : c.closed = false := by simpa using hopen
  cases result with
  | error => trivial
  | endOfStream =>
      dsimp only
      rw [ends_bind, ends_set]
      exact liftOut_elsewhere _
  | data received =>
      dsimp only
      rw [ends_bind, ends_set, handleNewData, ends_bind, ends_get]
      exact handleNewDataFrom_elsewhere _ (hread hopen)

theorem step_elsewhere (event : Event) (halive : c.alive = true) (hread : ReadsReadable w event c) :
    LeftElsewhere (step w event) c := by
  rw [LeftElsewhere, step, ends_bind, ends_get]
  cases event with
  | writer call =>
      dsimp only
      rw [ends_ite, if_pos halive]
      exact ⟨fun _ => LeftElsewhere.of_returns (writerCall_returns call c), fun _ => trivial⟩
  | readable result =>
      dsimp only
      rw [if_pos halive]
      exact handleDataReadyForRead_elsewhere result hread
  | writable =>
      dsimp only
      rw [if_pos halive]
      exact liftOut_elsewhere _
  | socket call =>
      dsimp only
      rw [if_pos halive]
      exact LeftElsewhere.of_returns (wsCall_sends call c)
  | destroy =>
      dsimp only
      rw [if_pos halive]
      exact LeftElsewhere.of_returns (destroy_idle c)

/-! ### Runs -/

/-- `inv` holds between any two events of a run, at its beginning and at its end. -/
def Always (w : World) (inv : Connection → Prop) (events : List Event) (c : Connection) : Prop :=
  ∀ before after c', events = before ++ after → run w before c = .ok c' → inv c'

theorem always_nil_iff {inv : Connection → Prop} : Always w inv [] c ↔ inv c := by
  refine ⟨fun h => h [] [] c rfl rfl, fun h before after c' hsplit hrun => ?_⟩
  obtain ⟨rfl, -⟩ := List.append_eq_nil_iff.mp hsplit.symm
  injection hrun with hrun
  exact hrun ▸ h

theorem always_cons_iff {inv : Connection → Prop} {event : Event} {events : List Event} :
    Always w inv (event :: events) c ↔ inv c ∧ match (step w event).run c with
      | .ok () c₁ | .error (.exception _) c₁ => Always w inv events c₁
      | .error (.fault _) _ => True := by
  constructor
  · intro h
    refine ⟨h [] (event :: events) c rfl rfl, ?_⟩
    cases hrun : (step w event).run c with
    | ok result c₁ =>
        intro before after c' hsplit hbefore
        refine h (event :: before) after c' (by rw [hsplit, List.cons_append]) ?_
        rw [run, hrun]
        exact hbefore
    | error e c₁ =>
        cases e with
        | fault f => trivial
        | exception e =>
            intro before after c' hsplit hbefore
            refine h (event :: before) after c' (by rw [hsplit, List.cons_append]) ?_
            rw [run, hrun]
            exact hbefore
  · rintro ⟨hc, h⟩ before after c' hsplit hbefore
    cases before with
    | nil =>
        injection hbefore with hbefore
        exact hbefore ▸ hc
    | cons first before =>
        rw [List.cons_append, List.cons.injEq] at hsplit
        obtain ⟨rfl, hsplit⟩ := hsplit
        rw [run] at hbefore
        cases hrun : (step w event).run c with
        | ok result c₁ =>
            rw [hrun] at h hbefore
            exact h before after c' hsplit hbefore
        | error e c₁ =>
            rw [hrun] at h hbefore
            cases e with
            | fault f => cases hbefore
            | exception e => exact h before after c' hsplit hbefore

theorem escapes_eq_nil_iff_always {events : List Event}
    (hreads : Throughout w (ReadsReadable w) events c) (hc : RangesAccepted c.calls) :
    escapes w events c = [] ↔ Always w (fun c => RangesAccepted c.calls) events c := by
  induction events generalizing c with
  | nil => exact iff_of_true rfl (always_nil_iff.mpr hc)
  | cons event events ih =>
      have hstep := step_moves (w := w) event c
      unfold Steps Ends at hstep
      rw [escapes, always_cons_iff, and_iff_right hc]
      cases hrun : (step w event).run c with
      | ok result c₁ =>
          rw [hrun] at hstep
          exact ih (hreads.tail hrun) (invariant_of_steps (fun c => RangesAccepted c.calls)
            (fun _ _ haccepted hmove => Move.rangesAccepted hmove haccepted) hstep hc)
      | error e c₁ =>
          rw [hrun] at hstep
          cases e with
          | exception e =>
              obtain ⟨c₂, -, hthrown⟩ := hstep
              refine iff_of_false (List.cons_ne_nil _ _) fun halways => ?_
              exact hthrown.not_rangesAccepted (halways [] events c₁ rfl rfl)
          | fault f =>
              refine iff_of_true (if_neg ?_) trivial
              rintro ⟨halive, hstate⟩
              have helsewhere := step_elsewhere (w := w) event halive
                (hreads [] event events c rfl rfl)
              unfold LeftElsewhere Ends at helsewhere
              rw [hrun] at helsewhere
              exact helsewhere f rfl hstate

/-- **What leaves a run.** If every read finds frames the decoder can read, a run is left exactly if a file
is opened for a request with a bad range. -/
theorem run_escapes_eq_nil_iff {events : List Event}
    (hreads : Throughout w (ReadsReadable w) events fresh) :
    escapes w events fresh = [] ↔ Always w (fun c => RangesAccepted c.calls) events fresh :=
  escapes_eq_nil_iff_always hreads List.IsChain.nil

/-- A server with a WebSocket handler and the same small file under every other name. -/
def filesAndChat : World := { World.chat with openFile := World.files.openFile }

def chatUpgrade : Bytes :=
  ascii "GET /chat HTTP/1.1\r\nConnection: Upgrade\r\nUpgrade: websocket\r\n"
    ++ ascii "Sec-WebSocket-Version: 13\r\n\r\n"

/-- A request for a part of a file, and one to upgrade with a frame behind it. -/
def partAndFrame : List Event :=
  [.readable (.data ⟨ascii "GET /a HTTP/1.1\r\nRange: bytes=1-2\r\n\r\n", by decide⟩),
    .readable (.data ⟨chatUpgrade ++ [0x81, 0x02, 104, 105], by decide +kernel⟩)]

def isFrameBuffer (c : Connection) : Bool :=
  c.state ≠ .handlingHybiWebSocket || c.inBuf = [0x81, 0x02, 104, 105]

/-- The buffer is that one frame wherever a read comes to frames. -/
def bringsFrame (w : World) : Event → Connection → Bool
  | .readable (.data received), c => everyTurn w isFrameBuffer 3 (afterRead c received.val)
  | _, _ => true

theorem readsReadable_of_bringsFrame {event : Event} (h : bringsFrame w event c = true) :
    ReadsReadable w event c := by
  cases event with
  | readable result =>
      cases result with
      | data received =>
          intro _ c' hturns hhybi
          have hframe := hturns.of_everyTurn h
          rw [isFrameBuffer, hhybi] at hframe
          have hinBuf : c'.inBuf = [0x81, 0x02, 104, 105] := by simpa using hframe
          rw [hinBuf]
          exact framesReadable_of_frame (f := ⟨false, 1, [104, 105]⟩) (by decide) (by decide)
      | endOfStream => trivial
      | error => trivial
  | writable => trivial
  | writer call => trivial
  | socket event => trivial
  | destroy => trivial

theorem run_escapes_eq_nil_iff_partAndFrame :
    ∃ c, run filesAndChat partAndFrame fresh = .ok c ∧
      .openFile (ascii "/a") true ∈ c.calls.map Entry.call ∧
      .onText 1 (ascii "hi") ∈ c.calls.map Entry.call ∧
      Always filesAndChat (fun c => RangesAccepted c.calls) partAndFrame fresh := by
  have hrun : (do
      let c ← run filesAndChat partAndFrame fresh
      return decide (.openFile (ascii "/a") true ∈ c.calls.map Entry.call ∧
        .onText 1 (ascii "hi") ∈ c.calls.map Entry.call)) = (.ok true : Except Fault Bool) := by
    decide +kernel
  obtain ⟨c, hc, hrun⟩ := ok_of_bind_eq_ok hrun
  injection hrun with hrun
  obtain ⟨hopened, htext⟩ := of_decide_eq_true hrun
  have hbrings : Throughout filesAndChat (fun event c => bringsFrame filesAndChat event c = true)
      partAndFrame fresh := throughout_of_everyEvent (by decide +kernel)
  refine ⟨c, hc, hopened, htext, (run_escapes_eq_nil_iff fun before event after c' hsplit hbefore => ?_).mp
    (by decide +kernel)⟩
  exact readsReadable_of_bringsFrame (hbrings before event after c' hsplit hbefore)

theorem escapes_of_bad_range :
    escapes World.files
      [.readable (.data ⟨ascii "GET /a HTTP/1.1\r\nRange: bytes=a-\r\n\r\n", by decide⟩)] fresh
      = [.exception .invalidArgument] := by
  decide +kernel

/-- The length of the second frame takes two bytes from behind the buffer. -/
example :
    escapes World.chat
      [.readable (.data ⟨chatUpgrade, by decide +kernel⟩),
        .readable (.data ⟨[0x81, 0, 0x82, 0x7f, 0xff, 0xff, 0xff, 0xff, 0xff, 0xff], by decide⟩)] fresh
      = [.overRead] := by
  decide +kernel

end Seasocks.Connection
