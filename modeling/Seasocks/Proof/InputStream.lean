import Seasocks.Proof.Exceptions
import Seasocks.Proof.OutputFlags

/-!
# Integrity of the input stream

What is taken from the input buffer, followed by what is still in it, is what has been received: as long
as no read fails, which leaves the buffer enlarged, and no exception leaves a header block in it that the
parser has overwritten.
-/

namespace Seasocks

/-- The bytes an entry stands for, when it is about something taken from the input buffer. -/
def Call.taken : Call → Bytes
  | .headers bytes | .content bytes | .key bytes | .message bytes | .frame bytes => bytes
  | _ => []

def Event.received : Event → Bytes
  | .readable (.data received) => received.val
  | _ => []

def received (events : List Event) : Bytes := events.flatMap Event.received

theorem received_cons (event : Event) (events : List Event) :
    received (event :: events) = event.received ++ received events := List.flatMap_cons

theorem received_append (events events' : List Event) :
    received (events ++ events') = received events ++ received events' := List.flatMap_append

namespace Connection

open Program Relation

variable {w : World} {c : Connection}

def takenBytes (calls : List Entry) : Bytes := calls.flatMap fun entry => entry.call.taken

/-- Everything that has been taken from the input buffer, then what is in it. -/
def stream (c : Connection) : Bytes := takenBytes c.calls ++ c.inBuf

@[simp]
theorem takenBytes_append (calls calls' : List Entry) :
    takenBytes (calls ++ calls') = takenBytes calls ++ takenBytes calls' := List.flatMap_append

@[simp]
theorem takenBytes_singleton (entry : Entry) : takenBytes [entry] = entry.call.taken := by
  simp [takenBytes]

/-! ### Serving leaves the input alone -/

def SameInput (c c' : Connection) : Prop :=
  c'.inBuf = c.inBuf ∧ takenBytes c'.calls = takenBytes c.calls

theorem SameInput.stream_eq {c' : Connection} (h : SameInput c c') : stream c' = stream c := by
  rw [stream, stream, h.1, h.2]

theorem Sends.sameInput {c c' : Connection} (h : Sends w c c') : SameInput c c' := by
  obtain ⟨out, calls, rfl, -, hcalls⟩ := h.frame
  refine ⟨rfl, ?_⟩
  have hnothing : takenBytes calls = [] := List.flatMap_eq_nil_iff.mpr fun entry hentry => by
    obtain ⟨input, hinput⟩ := hcalls entry hentry
    rw [hinput]
    rfl
  rw [takenBytes_append, hnothing, List.append_nil]

theorem SameInput.record {call : Call} {out : Output} (h : call.taken = []) :
    SameInput c { c with calls := c.calls ++ [⟨call, out⟩] } := ⟨rfl, by simp [h]⟩

theorem Answer.sameInput {c' : Connection} (h : Answer w c c') : SameInput c c' := by
  cases h with
  | write hwrite =>
      cases hwrite with
      | send hsend => exact Sends.sameInput (ReflTransGen.single hsend)
      | _ => exact ⟨rfl, rfl⟩
  | handle | openFile => exact ⟨rfl, by simp [Call.taken]⟩
  | setHandler | respond | awaitKey => exact ⟨rfl, rfl⟩
  | connect hstate hhandler hverb hcalls hout hsends =>
      obtain ⟨hinBuf, htaken⟩ := hsends.sameInput
      exact ⟨hinBuf, by simpa [Call.taken] using htaken⟩

theorem Serve.sameInput {c' : Connection} (h : Serve w c c') : SameInput c c' := by
  cases h with
  | answer hanswer => exact hanswer.sameInput
  | initialise => exact ⟨rfl, by simp [Call.taken]⟩
  | create | buffer => exact ⟨rfl, rfl⟩

theorem Serves.sameInput {c c' : Connection} (h : Serves w c c') : SameInput c c' := by
  induction h with
  | refl => exact ⟨rfl, rfl⟩
  | tail _ hstep ih =>
      obtain ⟨hinBuf, htaken⟩ := Serve.sameInput hstep
      exact ⟨hinBuf.trans ih.1, htaken.trans ih.2⟩

theorem SameInput.trans {c' c'' : Connection} (h : SameInput c c') (h' : SameInput c' c'') :
    SameInput c c'' := ⟨h'.1.trans h.1, h'.2.trans h.2⟩

theorem Thrown.sameInput {e : Exn} {c' : Connection} (h : Thrown e c c') : SameInput c c' := by
  cases h with
  | fault f => exact ⟨rfl, rfl⟩
  | range e path hstate hrequest hcalls hrange => exact SameInput.record rfl

/-- What is served leaves the input as it was, even if it throws. -/
theorem sameInput_of_serves {α : Type} {m : ConnM α} (h : Steps (Serve w) Thrown m c) :
    Ends m c (fun _ c' => SameInput c c') fun _ c' => SameInput c c' :=
  Ends.mono h (fun _ _ => Serves.sameInput) fun _ _ ⟨_, hsteps, hlast⟩ =>
    SameInput.trans (Serves.sameInput hsteps) hlast.sameInput

theorem sameInput_of_answers {α : Type} {m : ConnM α} (h : Steps (Answer w) Thrown m c) :
    Ends m c (fun _ c' => SameInput c c') fun _ c' => SameInput c c' :=
  sameInput_of_serves (serves_of_answers h)

/-! ### Nothing opens a closed connection -/

theorem SendStep.closed {c' : Connection} (h : SendStep w c c') (hclosed : c.closed = true) :
    c'.closed = true := by
  cases h with
  | output hop => exact hop.closed hclosed
  | deflate input => exact hclosed

theorem Sends.closed {c c' : Connection} (h : Sends w c c') (hclosed : c.closed = true) :
    c'.closed = true :=
  invariant_of_steps (fun c => c.closed = true) (fun _ _ hc hstep => SendStep.closed hstep hc) h hclosed

theorem closed_of_bufferSteps {out out' : Output}
    (h : ReflTransGen (Output.BufferStep w) out out') (hclosed : out.closed = true) :
    out'.closed = true :=
  invariant_of_steps (fun out => out.closed = true) (fun _ _ hout hstep => hstep.op.closed hout) h hclosed

theorem Answer.closed {c' : Connection} (h : Answer w c c') (hclosed : c.closed = true) :
    c'.closed = true := by
  cases h with
  | write hwrite =>
      cases hwrite with
      | send hsend => exact hsend.closed hclosed
      | _ => exact hclosed
  | connect hstate hhandler hverb hcalls hout hsends =>
      exact hsends.closed (closed_of_bufferSteps hout hclosed)
  | handle | openFile | setHandler | respond | awaitKey => exact hclosed

theorem Serve.closed {c' : Connection} (h : Serve w c c') (hclosed : c.closed = true) :
    c'.closed = true := by
  cases h with
  | answer hanswer => exact hanswer.closed hclosed
  | initialise | create | buffer => exact hclosed

/-! ### Bodies -/

/-- A request whose body is awaited has none yet, and will get one that is not too long. -/
def BodyAwaited (w : World) (c : Connection) : Prop :=
  c.state = .bufferingPostData → ∃ request, c.request = some request ∧ request.content = [] ∧
    request.contentLength ≠ 0 ∧ request.contentLength ≤ w.clientBufferSize

theorem BodyAwaited.sends {c c' : Connection} (h : BodyAwaited w c) (hsends : Sends w c c') :
    BodyAwaited w c' := by
  obtain ⟨out, calls, rfl, -⟩ := hsends.frame
  exact h

theorem BodyAwaited.answer {c' : Connection} (h : BodyAwaited w c) (hstep : Answer w c c') :
    BodyAwaited w c' := by
  cases hstep with
  | write hwrite =>
      cases hwrite with
      | send hsend => exact h.sends (ReflTransGen.single hsend)
      | encoding | chunk => exact h
      | headers | body | finish => exact fun hbuffering => by cases hbuffering
  | handle | openFile | setHandler => exact h
  | respond | awaitKey | connect => exact fun hbuffering => by cases hbuffering

theorem BodyAwaited.serve {c' : Connection} (h : BodyAwaited w c) (hstep : Serve w c c') :
    BodyAwaited w c' := by
  cases hstep with
  | answer hanswer => exact h.answer hanswer
  | initialise => exact h
  | create request hstate hcontent =>
      intro hbuffering
      exact absurd (hstate.symm.trans hbuffering) (by decide)
  | buffer hstate hrequest hcontent hlength hbounded => 
      exact fun _ => ⟨_, hrequest, hcontent, hlength, hbounded⟩

theorem BodyAwaited.move {c' : Connection} (h : BodyAwaited w c) (hstep : Move w c c') :
    BodyAwaited w c' := by
  cases hstep with
  | serve hserve => exact h.serve hserve
  | content | connect | connectNobody => exact fun hbuffering => by cases hbuffering
  | disconnect halive hresponse hhandler hsends hout =>
      have hsent := (show BodyAwaited w { c with calls := c.calls ++ _ } from h).sends hsends
      exact hsent
  | _ => exact h

theorem BodyAwaited.thrown {c' : Connection} {e : Exn} (h : BodyAwaited w c)
    (hthrown : Thrown e c c') : BodyAwaited w c' := by
  cases hthrown <;> exact h

theorem bodyAwaited_of_steps {c c' : Connection} (h : Moves w c c') (hc : BodyAwaited w c) :
    BodyAwaited w c' :=
  invariant_of_steps (BodyAwaited w) (fun _ _ => BodyAwaited.move) h hc

/-! ### Taking requests -/

/-- What is taken is the beginning of the stream, and the stream stays the same unless the connection is
closed. -/
def Intact (c c' : Connection) : Prop :=
  takenBytes c'.calls <+: stream c ∧ (c'.closed = true ∨ stream c' = stream c)

theorem intact_of_stream_eq {c' : Connection} (h : stream c' = stream c) : Intact c c' :=
  ⟨h ▸ List.prefix_append _ _, Or.inr h⟩

theorem SameInput.intact {c' : Connection} (h : SameInput c c') : Intact c c' :=
  intact_of_stream_eq h.stream_eq

theorem closeInternal_sameInput (c : Connection) :
    Ends closeInternal c (fun _ c' => SameInput c c' ∧ c'.closed = true) fun _ _ => False := by
  rw [closeInternal, ends_liftOut]
  exact (Output.closeInternal_closes c.out).mono fun _ _ h => ⟨⟨rfl, rfl⟩, h.2⟩

/-- The header block is overwritten in place, and that is all that changes in the buffer. -/
theorem processHeaders_input {last : Nat} (hstate : c.state = .readingHeaders)
    (htaken : JustTaken c.calls c.out) :
    Ends (processHeaders w last) c
      (fun _ c' => takenBytes c'.calls = takenBytes c.calls ∧ ∃ memory : Bytes,
        memory.length = (c.inBuf.take last).length ∧ c'.inBuf = memory ++ c.inBuf.drop last)
      fun _ _ => True := by
  have hlength := RequestParser.block_length (c.inBuf.take last)
  unfold Ends at hlength
  rw [processHeaders, ends_bind, ends_get]
  cases hrun : RequestParser.block.run (c.inBuf.take last) with
  | ok parsed memory =>
      rw [hrun] at hlength
      rw [ends_bind, ends_set]
      refine Ends.mono (sameInput_of_serves (processParsed_serves _ _ _ hstate htaken))
        (fun _ c' h => ?_) fun _ _ _ => trivial
      exact ⟨h.2, memory, hlength, h.1⟩
  | error stop memory =>
      rw [hrun] at hlength
      cases stop with
      | fault f => exact trivial
      | reject responseCode reason =>
          rw [ends_bind, ends_set]
          refine Ends.mono (sameInput_of_answers (sendError_answers _ _ _)) (fun _ c' h => ?_) fun _ _ _ => trivial
          exact ⟨h.2, memory, hlength, h.1⟩

theorem handleHeaders_intact (hstate : c.state = .readingHeaders) :
    Ends (handleHeaders w) c
      (fun goOn c' => if goOn then stream c' = stream c else Intact c c') fun _ _ => True := by
  rw [handleHeaders, ends_bind, ends_get]
  cases hfind : find (crlf ++ crlf) c.inBuf with
  | none =>
      rw [ends_ite, ends_bind]
      refine ⟨fun _ => ?_, fun _ => intact_of_stream_eq rfl⟩
      exact Ends.mono (sameInput_of_answers (sendError_answers _ _ _)) (fun _ _ => SameInput.intact)
        fun _ _ _ => trivial
  | some i =>
      have hlength := length_of_find hfind (by simp [crlf])
      rw [show (crlf ++ crlf).length = 4 from rfl] at hlength
      simp only [record, ends_bind, ends_modify]
      refine Ends.mono (processHeaders_input hstate (justTaken_concat rfl)) ?_ fun _ _ => id
      rintro accepted c' ⟨htaken, memory, hmemory, hinBuf⟩
      simp only [ends_ite, ends_bind, ends_modify, ends_pure]
      refine ⟨fun _ => ?_, fun _ => ?_⟩
      · have hmemory : memory.length = i + 2 := by
          rw [hmemory, List.length_take]
          dsimp only
          omega
        have hrest : c'.inBuf.drop (i + 4) = c.inBuf.drop (i + 4) := by
          rw [hinBuf, List.drop_append, List.drop_eq_nil_of_le (by omega), List.nil_append, hmemory,
            List.drop_drop]
          congr 1
          omega
        simp only [if_true, stream, htaken, hrest, takenBytes_append, takenBytes_singleton,
          Call.taken, List.append_assoc, List.take_append_drop]
      · refine (closeInternal_sameInput c').mono (fun _ c'' h => ⟨?_, Or.inl h.2⟩) fun _ _ => False.elim
        rw [h.1.2, htaken, takenBytes_append, takenBytes_singleton]
        exact (List.prefix_append_right_inj _).mpr (List.take_prefix _ _)

theorem theRequest_bind_ends {α : Type} {f : PageRequest → ConnM α} {post : α → Connection → Prop}
    (hf : ∀ request, c.request = some request → Ends (f request) c post fun _ _ => True) :
    Ends (theRequest >>= f) c post fun _ _ => True := by
  rw [theRequest, ends_bind, ends_bind, ends_get]
  cases hrequest : c.request with
  | none => exact trivial
  | some request => exact hf request hrequest

theorem handleBufferingPostData_intact (hstate : c.state = .bufferingPostData)
    (hbody : BodyAwaited w c) :
    Ends (handleBufferingPostData w) c (fun _ c' => Intact c c') fun _ _ => True := by
  rw [handleBufferingPostData, ends_bind, ends_get]
  refine theRequest_bind_ends fun request hrequest => ?_
  obtain ⟨request', hrequest', hcontent, -⟩ := hbody hstate
  obtain rfl : request = request' := by simpa [hrequest] using hrequest'
  by_cases hlength : request.contentLength ≤ c.inBuf.length
  · rw [PageRequest.consumeContent_of_le hcontent hlength]
    simp only [record, ends_bind, ends_modify]
    refine Ends.mono (sameInput_of_answers (handlePageRequest_answers rfl (justTaken_concat rfl))) ?_
      fun _ _ _ => trivial
    rintro accepted c' hinput
    have hstream : stream c' = stream c := by
      rw [hinput.stream_eq]
      simp [stream, Call.taken]
    rw [ends_ite]
    refine ⟨fun _ => ?_, fun _ => intact_of_stream_eq hstream⟩
    exact (closeInternal_sameInput c').mono
      (fun _ _ h => intact_of_stream_eq (h.1.stream_eq.trans hstream)) fun _ _ => False.elim
  · rw [PageRequest.consumeContent, if_pos (by omega)]
    exact intact_of_stream_eq rfl

/-! ### Taking messages -/

theorem callHandler_sameInput (call : Call) (react : List Entry → List WsCall) (c : Connection)
    (hcall : call.taken = []) :
    Ends (callHandler w call react) c (fun _ c' => SameInput c c') fun _ _ => False :=
  (callHandler_ends call react c).mono
    (fun _ _ hsends =>
      ⟨hsends.sameInput.1, hsends.sameInput.2.trans (SameInput.record hcall).2⟩) fun _ _ => id

theorem startHixie_intact :
    Ends (startHixie w) c (fun _ c' => c'.inBuf = c.inBuf.drop 8 ∧
      takenBytes c'.calls = takenBytes c.calls) fun _ _ => True := by
  rw [startHixie]
  simp only [ends_bind, ends_modify, ends_get]
  cases c.webSocketHandler with
  | none => exact ⟨rfl, rfl⟩
  | some handler =>
      exact (callHandler_sameInput _ _ _ rfl).mono (fun _ _ h => h) fun _ _ => False.elim

theorem handleWebSocketKey3_intact :
    Ends (handleWebSocketKey3 w) c (fun _ c' => Intact c c') fun _ _ => True := by
  rw [handleWebSocketKey3, ends_bind, ends_get, ends_ite]
  refine ⟨fun hlength => ?_, fun _ => intact_of_stream_eq rfl⟩
  refine theRequest_bind_ends fun request _ => ?_
  simp only [record, ends_bind, ends_modify, ends_liftOut]
  refine startHixie_intact.mono (fun _ c' h => intact_of_stream_eq ?_) fun _ _ => id
  rw [stream, stream, h.1, h.2]
  simp [Call.taken]

theorem handleWebSocketTextMessage_sameInput (message : Bytes) (c : Connection) :
    Ends (handleWebSocketTextMessage w message) c (fun _ c' => SameInput c c') fun _ _ => False := by
  rw [handleWebSocketTextMessage, ends_bind, ends_get]
  cases c.webSocketHandler with
  | none => exact ⟨rfl, rfl⟩
  | some handler => exact callHandler_sameInput _ _ _ rfl

theorem handleWebSocketBinaryMessage_sameInput (message : Bytes) (c : Connection) :
    Ends (handleWebSocketBinaryMessage w message) c (fun _ c' => SameInput c c')
      fun _ _ => False := by
  rw [handleWebSocketBinaryMessage, ends_bind, ends_get]
  cases c.webSocketHandler with
  | none => exact ⟨rfl, rfl⟩
  | some handler => exact callHandler_sameInput _ _ _ rfl

/-- A loop over the messages in `inBuf` that has come from `messageStart` to `messageEnd`, or closed the
connection. -/
def Passed (inBuf : Bytes) (messageStart : Nat) (c : Connection) (messageEnd : Option Nat)
    (c' : Connection) : Prop :=
  c'.inBuf = c.inBuf ∧
    match messageEnd with
    | none => c'.closed = true ∧
        takenBytes c'.calls <+: takenBytes c.calls ++ inBuf.drop messageStart
    | some messageEnd =>
        takenBytes c'.calls ++ inBuf.drop messageEnd = takenBytes c.calls ++ inBuf.drop messageStart

/-- Behind something that has been taken, or nothing. -/
theorem Passed.after {inBuf : Bytes} {messageStart next : Nat} {messageEnd : Option Nat}
    {c' c'' : Connection} (h : Passed inBuf next c' messageEnd c'') (hinBuf : c'.inBuf = c.inBuf)
    (htaken : takenBytes c'.calls ++ inBuf.drop next = takenBytes c.calls ++ inBuf.drop messageStart) :
    Passed inBuf messageStart c messageEnd c'' := by
  refine ⟨h.1.trans hinBuf, ?_⟩
  cases messageEnd with
  | none => exact ⟨h.2.1, htaken ▸ h.2.2⟩
  | some messageEnd => exact h.2.trans htaken

theorem passed_none {inBuf : Bytes} {messageStart : Nat} {c' : Connection} (h : SameInput c c')
    (hclosed : c'.closed = true) : Passed inBuf messageStart c none c' :=
  ⟨h.1, hclosed, h.2 ▸ List.prefix_append _ _⟩

theorem hixieLoop_passed (inBuf : Bytes) (fuel messageStart : Nat) :
    Ends (hixieLoop w inBuf fuel messageStart) c
      (fun messageEnd c' => Passed inBuf messageStart c messageEnd c') fun _ _ => True := by
  induction fuel generalizing messageStart c with
  | zero => exact ⟨rfl, rfl⟩
  | succ fuel ih =>
      rw [hixieLoop]
      cases hdrop : inBuf.drop messageStart with
      | nil => exact ⟨rfl, rfl⟩
      | cons first rest =>
          dsimp only
          rw [ends_ite, ends_bind]
          refine ⟨fun _ => ?_, fun _ => ?_⟩
          · exact (closeInternal_sameInput c).mono (fun _ _ h => passed_none h.1 h.2)
              fun _ _ => False.elim
          cases hfind : rest.idxOf? 0xff with
          | none => exact ⟨rfl, rfl⟩
          | some length =>
              simp only [record, ends_bind, ends_modify]
              refine (handleWebSocketTextMessage_sameInput _ _).mono (fun _ c' hinput => ?_)
                fun _ _ => False.elim
              refine Ends.mono (ih (messageStart + length + 2)) (fun messageEnd c'' h => ?_)
                fun _ _ => id
              refine h.after hinput.1 ?_
              rw [hinput.2, takenBytes_append, takenBytes_singleton, Call.taken, List.append_assoc,
                List.cons_append, Nat.add_assoc, ← List.drop_drop, hdrop, List.drop_succ_cons,
                List.take_append_drop]

theorem inflateMessage_sameInput (decoded : HybiPacketDecoder.Decoded) :
    Ends (inflateMessage w decoded) c
      (fun message c' => SameInput c c' ∧ (message = none → c'.closed = true)) fun _ _ => False := by
  have close : Ends (closeInternal >>= fun _ => pure (none : Option Bytes)) c
      (fun message c' => SameInput c c' ∧ (message = none → c'.closed = true)) fun _ _ => False := by
    rw [ends_bind]
    exact (closeInternal_sameInput c).mono (fun _ _ h => ⟨h.1, fun _ => h.2⟩) fun _ _ => id
  simp only [inflateMessage, ends_ite, ends_pure]
  refine ⟨fun _ => ?_, fun _ => ⟨⟨rfl, rfl⟩, by simp⟩⟩
  rw [ends_bind, ends_get, ends_ite]
  refine ⟨fun _ => ?_, fun _ => close⟩
  simp only [record, ends_bind, ends_modify, ends_get]
  have hinput : SameInput c { c with calls := c.calls ++ [⟨.inflate decoded.messageOut, c.out⟩] } :=
    SameInput.record rfl
  generalize w.inflate _ decoded.messageOut = inflated
  cases inflated with
  | none =>
      dsimp only
      rw [ends_bind]
      exact (closeInternal_sameInput _).mono (fun _ _ h => ⟨hinput.trans h.1, fun _ => h.2⟩)
        fun _ _ => id
  | some decompressed => exact ⟨hinput, by simp⟩

theorem dispatchMessage_sameInput (messageState : HybiPacketDecoder.MessageState) (message : Bytes) :
    Ends (dispatchMessage w messageState message) c
      (fun goOn c' => SameInput c c' ∧ (goOn = none → c'.closed = true)) fun _ _ => False := by
  cases messageState with
  | noMessage | pong => exact ⟨⟨rfl, rfl⟩, by simp⟩
  | textMessage =>
      rw [dispatchMessage, ends_bind]
      exact (handleWebSocketTextMessage_sameInput _ _).mono (fun _ _ h => ⟨h, by simp⟩) fun _ _ => id
  | binaryMessage =>
      rw [dispatchMessage, ends_bind]
      exact (handleWebSocketBinaryMessage_sameInput _ _).mono (fun _ _ h => ⟨h, by simp⟩) fun _ _ => id
  | ping =>
      rw [dispatchMessage, ends_bind]
      exact (sendHybi_sends _ _ c).mono (fun _ _ h => ⟨Sends.sameInput h, by simp⟩) fun _ _ => id
  | error | close =>
      rw [dispatchMessage, ends_bind]
      exact (closeInternal_sameInput c).mono (fun _ _ h => ⟨h.1, fun _ => h.2⟩) fun _ _ => id

theorem hybiLoop_passed (inBuf : Bytes) (fuel messageStart : Nat) :
    Ends (hybiLoop w inBuf fuel messageStart) c
      (fun messageEnd c' => Passed inBuf messageStart c messageEnd c') fun _ _ => True := by
  induction fuel generalizing messageStart c with
  | zero => exact ⟨rfl, rfl⟩
  | succ fuel ih =>
      rw [hybiLoop]
      cases hdecode : HybiPacketDecoder.decodeNextMessage inBuf messageStart [] false with
      | error f => exact trivial
      | ok decoded =>
          have deliver : ∀ c₁ : Connection, c₁.inBuf = c.inBuf →
              takenBytes c₁.calls ++ inBuf.drop decoded.messageStart
                = takenBytes c.calls ++ inBuf.drop messageStart →
              Ends (hybiTurn w inBuf fuel decoded) c₁
                (fun messageEnd c' => Passed inBuf messageStart c messageEnd c') fun _ _ => True := by
            intro c₁ hinBuf hstream
            have passed : ∀ (messageEnd : Option Nat) {c₂ c₃ : Connection}, SameInput c₁ c₂ →
                Passed inBuf decoded.messageStart c₂ messageEnd c₃ →
                Passed inBuf messageStart c messageEnd c₃ := by
              intro messageEnd c₂ c₃ hinput hpassed
              exact hpassed.after (hinput.1.trans hinBuf) (hinput.2 ▸ hstream)
            have closed : ∀ {c₂ : Connection}, SameInput c₁ c₂ → c₂.closed = true →
                Passed inBuf messageStart c none c₂ := fun hinput hclosed =>
              (passed_none hinput hclosed).after hinBuf hstream
            rw [hybiTurn, ends_bind]
            refine (inflateMessage_sameInput decoded).mono (fun message c₂ hinflate => ?_)
              fun _ _ => False.elim
            cases message with
            | none => exact closed hinflate.1 (hinflate.2 rfl)
            | some message =>
                dsimp only
                rw [ends_bind]
                refine (dispatchMessage_sameInput _ _).mono (fun goOn c₃ hdispatch => ?_)
                  fun _ _ => False.elim
                have hinput := hinflate.1.trans hdispatch.1
                cases goOn with
                | none => exact closed hinput (hdispatch.2 rfl)
                | some goOn =>
                    cases goOn with
                    | true =>
                        exact Ends.mono (ih decoded.messageStart)
                          (fun messageEnd _ => passed messageEnd hinput) fun _ _ => id
                    | false => exact passed (some decoded.messageStart) hinput ⟨rfl, rfl⟩
          dsimp only
          rw [ends_ite, ends_bind]
          have hle := HybiPacketDecoder.decodeNextMessage_start_le hdecode
          refine ⟨fun _ => deliver _ rfl ?_, fun hstay => deliver c rfl ?_⟩
          · have hnext : inBuf.drop decoded.messageStart
                = (inBuf.drop messageStart).drop (decoded.messageStart - messageStart) := by
              rw [List.drop_drop, Nat.add_sub_cancel' hle]
            simp only [takenBytes_append, takenBytes_singleton, Call.taken, List.append_assoc]
            rw [List.drop_take, hnext, List.take_append_drop]
          · rw [Nat.le_antisymm (Nat.le_of_not_lt hstay) hle]

theorem closeIfTooLong_sameInput (c : Connection) :
    Ends closeIfTooLong c (fun _ c' => SameInput c c') fun _ _ => False := by
  rw [closeIfTooLong, ends_bind, ends_get, ends_ite]
  exact ⟨fun _ => (closeInternal_sameInput c).mono (fun _ _ h => h.1) fun _ _ => id,
    fun _ => ⟨rfl, rfl⟩⟩

/-- What both routines do once their loop is done. -/
theorem eraseMessages_intact (messageEnd : Option Nat) (c' : Connection) :
    Passed c.inBuf 0 c messageEnd c' → Ends (match messageEnd with
      | none => return ()
      | some messageEnd => do
          modify fun c => { c with inBuf := c.inBuf.drop messageEnd }
          closeIfTooLong : ConnM Unit) c' (fun _ c'' => Intact c c'') fun _ _ => True := by
  intro h
  cases messageEnd with
  | none => exact ⟨by simpa [stream] using h.2.2, Or.inl h.2.1⟩
  | some messageEnd =>
      simp only [ends_bind, ends_modify]
      refine (closeIfTooLong_sameInput _).mono (fun _ c'' hinput => intact_of_stream_eq ?_)
        fun _ _ => False.elim
      rw [hinput.stream_eq, stream, stream, h.1, h.2, List.drop_zero]

theorem handleHixieWebSocket_intact :
    Ends (handleHixieWebSocket w) c (fun _ c' => Intact c c') fun _ _ => True := by
  rw [handleHixieWebSocket, ends_bind, ends_get, ends_ite, ends_bind]
  refine ⟨fun _ => ?_, fun _ => intact_of_stream_eq rfl⟩
  exact Ends.mono (hixieLoop_passed c.inBuf _ 0) eraseMessages_intact fun _ _ => id

theorem handleHybiWebSocket_intact :
    Ends (handleHybiWebSocket w) c (fun _ c' => Intact c c') fun _ _ => True := by
  rw [handleHybiWebSocket, ends_bind, ends_get, ends_ite, ends_bind]
  refine ⟨fun _ => ?_, fun _ => intact_of_stream_eq rfl⟩
  exact Ends.mono (hybiLoop_passed c.inBuf _ 0) eraseMessages_intact fun _ _ => id

/-! ### Whole steps -/

theorem handleNewDataFrom_intact (fuel : Nat) (hbody : BodyAwaited w c) :
    Ends (handleNewDataFrom w fuel) c (fun _ c' => Intact c c') fun _ _ => True := by
  induction fuel generalizing c with
  | zero => exact intact_of_stream_eq rfl
  | succ fuel ih =>
      rw [handleNewDataFrom, ends_bind, ends_get]
      cases hstate : c.state with
      | readingHeaders =>
          dsimp only
          rw [ends_bind]
          refine ((handleHeaders_intact hstate).and (handleHeaders_takes hstate)).mono
            (fun goOn c' h => ?_) fun _ _ _ => trivial
          cases goOn with
          | true =>
              refine Ends.mono (ih (bodyAwaited_of_steps (ReflTransGen.mono (fun _ _ => And.left) _ _ h.2) hbody)) (fun _ c'' h' => ?_) fun _ _ => id
              have hstream : stream c' = stream c := h.1
              rwa [Intact, hstream] at h'
          | false => exact h.1
      | readingWebSocketKey3 => exact handleWebSocketKey3_intact
      | handlingHixieWebSocket => exact handleHixieWebSocket_intact
      | handlingHybiWebSocket => exact handleHybiWebSocket_intact
      | bufferingPostData => exact handleBufferingPostData_intact hstate hbody
      | awaitingResponseBegin | sendingResponseHeaders | sendingResponseBody =>
          exact intact_of_stream_eq rfl
      | invalid => exact trivial

theorem destroy_closes (c : Connection) :
    Ends (destroy w) c (fun _ c' => SameInput c c' ∧ c'.closed = true) fun _ _ => False := by
  have close : ∀ c', SameInput c c' → Ends (do
      liftOut closeFd
      modify fun c => { c with webSocketHandler := none, alive := false } : ConnM Unit) c'
      (fun _ c' => SameInput c c' ∧ c'.closed = true) fun _ _ => False := by
    intro c' hinput
    simp only [ends_bind, ends_liftOut, ends_modify]
    refine (closeFd_after c'.out).mono fun _ out hout => ⟨hinput, ?_⟩
    simp [Connection.closed, Output.closed, hout]
  have cancel : Ends cancelResponse c (fun _ c' => SameInput c c') fun _ _ => False := by
    simp only [cancelResponse, record, ends_bind, ends_get, ends_ite, ends_modify, ends_pure]
    exact ⟨fun _ => ⟨rfl, (SameInput.record rfl).2⟩, fun _ => ⟨rfl, rfl⟩⟩
  rw [destroy, ends_bind]
  refine cancel.mono (fun _ c' hinput => ?_) fun _ _ => id
  rw [ends_bind, ends_get]
  cases c'.webSocketHandler with
  | none => exact close c' hinput
  | some handler =>
      dsimp only
      rw [ends_bind]
      refine (callHandler_sameInput _ _ c' rfl).mono (fun _ c'' hcalled => ?_) fun _ _ => id
      exact close c'' (hinput.trans hcalled)

/-- What has been taken is the beginning of what was received, and all of it unless the connection is
closed or there is something left in the buffer. -/
def Keeps (received : Bytes) (c : Connection) : Prop :=
  takenBytes c.calls <+: received ∧ (c.closed = true ∨ stream c = received)

theorem Keeps.append {received : Bytes} {c' : Connection} (h : Keeps received c)
    (htaken : takenBytes c'.calls = takenBytes c.calls) (hclosed : c'.closed = true) (more : Bytes) :
    Keeps (received ++ more) c' :=
  ⟨htaken ▸ h.1.trans (List.prefix_append _ _), Or.inl hclosed⟩

theorem Keeps.sameInput {received : Bytes} {c' : Connection} (h : Keeps received c)
    (hinput : SameInput c c') (hclosed : c.closed = true → c'.closed = true) :
    Keeps received c' :=
  ⟨hinput.2 ▸ h.1, h.2.imp hclosed hinput.stream_eq.trans⟩

theorem keeps_of_serves {received : Bytes} {m : ConnM Unit} (h : Keeps received c)
    (hserves : Steps (Serve w) Thrown m c) :
    Ends m c (fun _ c' => Keeps received c') fun _ _ => True := by
  refine Ends.mono hserves (fun _ c' hsteps => ?_) fun _ _ _ => trivial
  exact h.sameInput (Serves.sameInput hsteps)
    (invariant_of_steps (fun c => c.closed = true) (fun _ _ hc hstep => Serve.closed hstep hc) hsteps)

/-- A failing read is only taken notice of while the connection is open. -/
theorem handleDataReadyForRead_keeps {result : ReadResult} {received : Bytes}
    (h : Keeps received c) (hbody : BodyAwaited w c) (hread : result = .error → c.closed = true) :
    Ends (handleDataReadyForRead w result) c
      (fun _ c' => Keeps (received ++ (Event.readable result).received) c') fun _ _ => True := by
  rw [handleDataReadyForRead, ends_bind, ends_get, ends_ite]
  refine ⟨fun hopen => ?_, fun hclosed => ?_⟩
  · have hopen : ¬ c.closed = true := by simpa using hopen
    cases result with
    | error => exact absurd (hread rfl) hopen
    | endOfStream =>
        simp only [ends_bind, ends_set]
        refine (closeInternal_sameInput _).mono (fun _ c' hclose => ?_) fun _ _ => False.elim
        exact h.append hclose.1.2 hclose.2 _
    | data received' =>
        have hstream := h.2.resolve_left hopen
        simp only [ends_bind, ends_set, handleNewData, ends_get]
        refine Ends.mono (handleNewDataFrom_intact _ hbody) (fun _ c' hintact => ?_) fun _ _ => id
        rwa [Intact, show stream _ = received ++ received'.val by
          rw [← hstream, stream, stream, List.append_assoc]] at hintact
  · exact h.append rfl (by simpa using hclosed) _

/-- No event but a failing read changes the stream of an open connection other than by what is
received. -/
theorem step_keeps {event : Event} {received : Bytes} (h : Keeps received c) (hbody : BodyAwaited w c)
    (hread : event = .readable .error → c.closed = true) :
    Ends (step w event) c (fun _ c' => Keeps (received ++ event.received) c') fun _ _ => True := by
  have fault : Ends (fault .badPointer : ConnM Unit) c
      (fun _ c' => Keeps (received ++ event.received) c') fun _ _ => True := trivial
  have serve : ∀ {m : ConnM Unit}, event.received = [] → Steps (Serve w) Thrown m c →
      Ends m c (fun _ c' => Keeps (received ++ event.received) c') fun _ _ => True := by
    intro m hnothing hserves
    rw [hnothing, List.append_nil]
    exact keeps_of_serves h hserves
  rw [step, ends_bind, ends_get]
  cases event with
  | readable result =>
      rw [ends_ite]
      exact ⟨fun _ => handleDataReadyForRead_keeps h hbody fun hresult => hread (by rw [hresult]),
        fun _ => fault⟩
  | writable =>
      rw [ends_ite]
      refine ⟨fun _ => serve rfl ?_, fun _ => fault⟩
      exact serves_of_answers (answers_of_writes (liftOut_writes Output.handleDataReadyForWrite_runs c))
  | writer call =>
      simp only [ends_ite, ends_pure]
      refine ⟨fun _ => ⟨fun _ => serve rfl ?_, fun _ => fault⟩, fun _ => ?_⟩
      · exact serves_of_answers (answers_of_writes (writerCall_writes call c))
      · rwa [show (Event.writer call).received = [] from rfl, List.append_nil]
  | socket call =>
      rw [ends_ite]
      refine ⟨fun _ => serve rfl ?_, fun _ => fault⟩
      exact ((wsCall_sends call).steps c).mono fun _ _ => Serve.send
  | destroy =>
      rw [ends_ite]
      refine ⟨fun _ => ?_, fun _ => fault⟩
      exact (destroy_closes c).mono (fun _ c' hclose => h.append hclose.1.2 hclose.2 _)
        fun _ _ => False.elim

/-! ### Runs -/

/-- No read of an open connection returns -1. -/
def ReadsSucceed (w : World) (events : List Event) (c : Connection) : Prop :=
  ∀ before after c', events = before ++ .readable .error :: after → run w before c = .ok c' →
    c'.closed = true

theorem readsSucceed_of_not_mem {events : List Event} (h : .readable .error ∉ events) :
    ReadsSucceed w events c := fun _ _ _ hsplit =>
  absurd (hsplit ▸ List.mem_append_right _ List.mem_cons_self) h

theorem run_keeps {events : List Event} {bytes : Bytes} {c' : Connection}
    (h : run w events c = .ok c') (hkeeps : Keeps bytes c) (hbody : BodyAwaited w c)
    (hreads : ReadsSucceed w events c) (hnone : escapes w events c = []) :
    Keeps (bytes ++ received events) c' := by
  induction events generalizing bytes c with
  | nil =>
      injection h with h
      rwa [← h, received, List.flatMap_nil, List.append_nil]
  | cons event events ih =>
      have hstep := (step_keeps (w := w) hkeeps hbody fun hevent =>
        hreads [] events c (by rw [hevent, List.nil_append]) rfl).and (step_moves event c)
      unfold Ends at hstep
      rw [escapes] at hnone
      cases hrun : (step w event).run c with
      | ok result c₁ =>
          rw [hrun] at hstep hnone
          rw [run_cons_ok hrun] at h
          have hreads₁ : ReadsSucceed w events c₁ := by
            intro before after c₂ hsplit hbefore
            refine hreads (event :: before) after c₂ (by rw [hsplit, List.cons_append]) ?_
            rwa [run_cons_ok hrun]
          have hrest := ih h hstep.1 (bodyAwaited_of_steps hstep.2 hbody) hreads₁ hnone
          rwa [List.append_assoc] at hrest
      | error e c₁ =>
          rw [run, hrun] at h
          rw [hrun] at hnone
          cases e with
          | exception e => cases hnone
          | fault f => cases h

theorem keeps_of_run {events : List Event} (h : run w events fresh = .ok c)
    (hreads : ReadsSucceed w events fresh) (hranges : RangesAccepted c.calls) :
    Keeps (received events) c :=
  run_keeps h ⟨List.nil_prefix, Or.inr rfl⟩ (fun hbuffering => by cases hbuffering) hreads
    ((escapes_eq_nil_iff h List.IsChain.nil).mpr hranges)

/-- **Integrity of the input stream.** While the connection is open, no read has failed and no file has
been opened for a request with a bad range, a further read hands `handleNewData` a buffer that continues
what has been taken before to the concatenation of all bytes received. -/
theorem run_stream {events : List Event} (h : run w events fresh = .ok c)
    (hreads : ReadsSucceed w events fresh) (hranges : RangesAccepted c.calls)
    (hopen : c.closed = false)
    (received' : { bytes : Bytes // bytes ≠ [] ∧ bytes.length ≤ readWriteBufferSize }) :
    (handleDataReadyForRead w (.data received')).run c = (handleNewData w).run
        { c with
          bytesReceived := c.bytesReceived + received'.val.length
          inBuf := c.inBuf ++ received'.val } ∧
      takenBytes c.calls ++ (c.inBuf ++ received'.val)
        = received (events ++ [.readable (.data received')]) := by
  have hstream := (keeps_of_run h hreads hranges).2.resolve_left (by simp [hopen])
  constructor
  · simp only [handleDataReadyForRead, EStateM.run_bind, EStateM.run_get, hopen]
    rfl
  · rw [← List.append_assoc, ← stream, hstream]
    simp [received, Event.received]

/-- A request has been served, and the next one begun. -/
theorem run_stream_next :
    ∃ c, run World.files
        [.readable (.data ⟨ascii "GET /a HTTP/1.1\r\n\r\nGET ", by decide⟩)] fresh = .ok c ∧
      c.inBuf = ascii "GET " ∧
      takenBytes c.calls ++ (c.inBuf ++ ascii "/b") = ascii "GET /a HTTP/1.1\r\n\r\nGET /b" := by
  have hrun : (do
      let c ← run World.files
        [.readable (.data ⟨ascii "GET /a HTTP/1.1\r\n\r\nGET ", by decide⟩)] fresh
      return decide (c.inBuf = ascii "GET " ∧ c.closed = false)) = (.ok true : Except Fault Bool) := by
    decide +kernel
  obtain ⟨c, hc, hrun⟩ := ok_of_bind_eq_ok hrun
  injection hrun with hrun
  obtain ⟨hinBuf, hopen⟩ := of_decide_eq_true hrun
  have hreads : ReadsSucceed World.files
      [.readable (.data ⟨ascii "GET /a HTTP/1.1\r\n\r\nGET ", by decide⟩)] fresh :=
    readsSucceed_of_not_mem (by simp)
  have hranges := (escapes_eq_nil_iff hc List.IsChain.nil).mp (by decide +kernel)
  exact ⟨c, hc, hinBuf, (run_stream hc hreads hranges hopen ⟨ascii "/b", by decide⟩).2⟩

/-- A read that returns -1 leaves a block of zeros in the buffer. -/
theorem stream_ne_of_failed_read :
    ∃ c, run World.plain [.readable .error] fresh = .ok c ∧ c.closed = false ∧
      c.inBuf ≠ fresh.inBuf ∧ stream c ≠ received [.readable .error] := by
  refine ⟨{ fresh with inBuf := List.replicate readWriteBufferSize 0 }, rfl, rfl, ?_, ?_⟩
  · exact fun h => by cases h
  · exact fun h => by cases h

end Connection

end Seasocks
