import Seasocks.Proof.WriterProtocol

/-!
# Pages

What a page handler's response makes of a connection it keeps open: the uses of its writer take the
connection through the states of a response, and touch neither the input buffer nor the request.
-/

namespace Seasocks

open Program Relation

/-- The state a use of a writer leads to. -/
def WriterCall.next : State → WriterCall → State
  | .awaitingResponseBegin, .begin _ _ => .sendingResponseHeaders
  | .sendingResponseHeaders, .payload _ _ => .sendingResponseBody
  | .sendingResponseHeaders, .finish _ | .sendingResponseBody, .finish _ => .readingHeaders
  | state, _ => state

/-- A use of a writer by a response that keeps the connection open and is no error page. -/
def WriterCall.KeepsOpen : WriterCall → Prop
  | .finish keepConnectionOpen => keepConnectionOpen = true
  | .error _ _ => False
  | .begin _ _ | .header _ _ | .payload _ _ => True

/-- The response finishes before its `handle` returns. -/
def Response.Finishes (response : Response) : Prop :=
  response.calls.foldl WriterCall.next .awaitingResponseBegin = .readingHeaders

def Response.KeepsOpen (response : Response) : Prop := ∀ call ∈ response.calls, call.KeepsOpen

instance : DecidablePred WriterCall.KeepsOpen
  | .finish keepConnectionOpen => inferInstanceAs (Decidable (keepConnectionOpen = true))
  | .error _ _ => isFalse id
  | .begin _ _ | .header _ _ | .payload _ _ => isTrue trivial

instance (response : Response) : Decidable response.KeepsOpen :=
  inferInstanceAs (Decidable (∀ call ∈ response.calls, call.KeepsOpen))

namespace Connection

variable {w : World} {c : Connection}

theorem next_of_illegal {state : State} {call : WriterCall} (h : ¬ Legal state call) :
    call.next state = state := by
  cases call <;> cases state <;> first | rfl | exact absurd (by simp [Legal]) h

/-! ### Uses of a writer -/

/-- Only output has been produced since, by a response. -/
structure Wrote (c c' : Connection) : Prop where
  inBuf : c'.inBuf = c.inBuf
  request : c'.request = c.request
  calls : c'.calls = c.calls
  alive : c'.alive = c.alive
  writer : c'.writer = c.writer
  quiet : Output.Quiet c.out c'.out

theorem Wrote.refl (c : Connection) : Wrote c c := ⟨rfl, rfl, rfl, rfl, rfl, Output.Quiet.refl _⟩

theorem Wrote.trans {c' c'' : Connection} (h : Wrote c c') (h' : Wrote c' c'') : Wrote c c'' where
  inBuf := h'.inBuf.trans h.inBuf
  request := h'.request.trans h.request
  calls := h'.calls.trans h.calls
  alive := h'.alive.trans h.alive
  writer := h'.writer.trans h.writer
  quiet := h.quiet.trans h'.quiet

theorem wrote_out {out : Output} (h : ReflTransGen (Output.BufferStep w) c.out out) :
    Wrote c { c with out := out } := ⟨rfl, rfl, rfl, rfl, rfl, Output.quiet_of_bufferSteps h⟩

/-- A response is pending exactly in the states in which one is written. -/
def Pending (c : Connection) : Prop := c.response.isSome = true ↔ Responding c

/-- What a use of the writer comes to. -/
def Uses (call : WriterCall) (c c' : Connection) : Prop :=
  Wrote c c' ∧ c'.state = call.next c.state ∧ Pending c'

theorem writeChunkHeader_wrote (size : Nat) (c : Connection) :
    Ends (writeChunkHeader w size) c
      (fun _ c' => Wrote c c' ∧ c'.state = c.state ∧ c'.response = c.response) fun _ _ => False := by
  simp only [writeChunkHeader, ends_bind, ends_get, ends_set, ends_liftOut, ends_pure]
  exact (Output.write_runs _ _ c.out).mono fun _ out hout =>
    ⟨⟨rfl, rfl, rfl, rfl, rfl, Output.quiet_of_bufferSteps hout⟩, trivial, trivial⟩

theorem payloadBody_wrote (data : Bytes) (flush : Bool) (c : Connection) :
    Ends (payloadBody w data flush) c
      (fun _ c' => Wrote c c' ∧ c'.state = c.state ∧ c'.response = c.response) fun _ _ => False := by
  rw [payloadBody, ends_bind, ends_get, ends_ite]
  constructor
  · intro _
    rw [ends_bind]
    refine (writeChunkHeader_wrote data.length c).mono ?_ fun _ _ => id
    rintro - c₁ ⟨hwrote, hstate, hresponse⟩
    rw [ends_bind, ends_liftOut]
    exact (Output.write_runs data flush c₁.out).mono fun _ out hout =>
      ⟨hwrote.trans (wrote_out hout), hstate, hresponse⟩
  · intro _
    rw [ends_bind, ends_liftOut]
    exact (Output.write_runs data flush c.out).mono fun _ out hout => ⟨wrote_out hout, rfl, rfl⟩

theorem finishBody_wrote (c : Connection) :
    Ends (finishBody w true) c
      (fun _ c' => Wrote c c' ∧ c'.state = .readingHeaders ∧ c'.response = none) fun _ _ => False := by
  have close : ∀ c₁, Wrote c c₁ → Ends (do
      let _ ← liftOut (Output.flush w)
      if !true then
        liftOut Output.closeWhenEmpty
      modify fun c => { c with state := .readingHeaders, response := none }) c₁
      (fun _ c' => Wrote c c' ∧ c'.state = .readingHeaders ∧ c'.response = none) fun _ _ => False := by
    intro c₁ h₁
    rw [ends_bind, ends_liftOut]
    refine (Output.flush_runs c₁.out).mono fun _ out hout => ?_
    have hwrote := h₁.trans (wrote_out hout)
    exact ⟨{ hwrote with }, rfl, rfl⟩
  rw [finishBody, ends_bind, ends_get, ends_ite]
  refine ⟨fun _ => ?_, fun _ => close c (Wrote.refl c)⟩
  rw [ends_bind]
  refine (writeChunkHeader_wrote 0 c).mono ?_ fun _ _ => id
  rintro - c₁ ⟨h₁, -, -⟩
  rw [ends_bind, ends_liftOut]
  exact (Output.write_runs crlf false c₁.out).mono fun _ out hout => close _ (h₁.trans (wrote_out hout))

theorem pending_of_responding {c' : Connection} (h : Pending c) (hresponding : Responding c)
    (hresponse : c'.response = c.response) (hstill : Responding c') : Pending c' := by
  unfold Pending
  rw [hresponse]
  exact iff_of_true (h.mpr hresponding) hstill

theorem pending_of_none (hresponse : c.response = none) (hnot : ¬ Responding c) : Pending c := by
  unfold Pending
  rw [hresponse]
  exact iff_of_false (by simp) hnot

theorem pending_of_reading (hstate : c.state = .readingHeaders) (hresponse : c.response = none) :
    Pending c := pending_of_none hresponse (not_responding hstate (by decide))

theorem writerCall_uses {call : WriterCall} (hkeeps : call.KeepsOpen) (hpending : Pending c) :
    Ends (writerCall w call) c (fun _ c' => Uses call c c') fun _ _ => False := by
  by_cases hlegal : Legal c.state call
  · cases call with
    | begin responseCode encoding =>
        have hstate : c.state = .awaitingResponseBegin := hlegal
        have still : ∀ c', Wrote c c' → c'.state = .sendingResponseHeaders → c'.response = c.response →
            Uses (.begin responseCode encoding) c c' := by
          intro c' hwrote hstate' hresponse
          refine ⟨hwrote, ?_, pending_of_responding hpending (Or.inl hstate) hresponse ?_⟩
          · rw [hstate', hstate]
            rfl
          · exact Or.inr (Or.inl hstate')
        rw [writerCall, begin, ends_bind, ends_get, if_pos hstate]
        simp only [setState, ends_bind, ends_modify, ends_liftOut, ends_ite, ends_pure]
        refine (Output.bufferResponseAndCommonHeaders_runs (w := w) responseCode c.out).mono
          fun _ out hout => ?_
        have hquiet := Output.quiet_of_bufferSteps hout
        refine ⟨fun _ => ?_, fun _ => still _ ⟨rfl, rfl, rfl, rfl, rfl, hquiet⟩ rfl rfl⟩
        apply (Output.bufferText_runs (w := w) "Transfer-encoding: chunked" out).mono
        intro _ out' hout'
        have hquiet' := hquiet.trans (Output.quiet_of_bufferSteps hout')
        exact still _ ⟨rfl, rfl, rfl, rfl, rfl, hquiet'⟩ rfl rfl
    | header name value =>
        have hstate : c.state = .sendingResponseHeaders := hlegal
        rw [writerCall, header, ends_bind, ends_get, if_pos hstate]
        simp only [ends_bind, ends_liftOut, ends_pure]
        refine (Output.bufferLine_runs (w := w) _ c.out).mono fun _ out hout => ⟨wrote_out hout, ?_, ?_⟩
        · dsimp only
          rw [hstate]
          rfl
        · have hresponding : Responding c := Or.inr (Or.inl hstate)
          exact pending_of_responding hpending hresponding rfl hresponding
    | payload data flush =>
        rw [writerCall, payload, ends_bind, ends_get]
        rcases hlegal with hstate | hstate
        · rw [if_pos hstate, ends_bind, ends_liftOut]
          refine (Output.bufferText_runs (w := w) "" c.out).mono fun _ out hout => ?_
          rw [setState, ends_bind, ends_modify]
          refine (payloadBody_wrote (w := w) data flush
            { c with out := out, state := .sendingResponseBody }).mono ?_ fun _ _ => id
          rintro - c' ⟨hwrote, hstate', hresponse⟩
          have hquiet := (Output.quiet_of_bufferSteps hout).trans hwrote.quiet
          refine ⟨{ hwrote with quiet := hquiet }, ?_, ?_⟩
          · rw [hstate', hstate]
            rfl
          · have hresponding : Responding c := Or.inr (Or.inl hstate)
            exact pending_of_responding hpending hresponding hresponse (Or.inr (Or.inr hstate'))
        · rw [if_neg (by simp [hstate]), if_pos hstate]
          refine (payloadBody_wrote (w := w) data flush c).mono ?_ fun _ _ => id
          rintro - c' ⟨hwrote, hstate', hresponse⟩
          have hsame := hstate'.trans hstate
          refine ⟨hwrote, ?_, ?_⟩
          · rw [hsame, hstate]
            rfl
          · have hresponding : Responding c := Or.inr (Or.inr hstate)
            exact pending_of_responding hpending hresponding hresponse (Or.inr (Or.inr hsame))
    | finish keepConnectionOpen =>
        have hopen : keepConnectionOpen = true := hkeeps
        subst hopen
        have hnext : (WriterCall.finish true).next c.state = .readingHeaders := by
          rcases hlegal with hstate | hstate
          · rw [hstate]
            rfl
          · rw [hstate]
            rfl
        rw [writerCall, finish, ends_bind, ends_get]
        rcases hlegal with hstate | hstate
        · rw [if_pos hstate, ends_bind, ends_liftOut]
          refine (Output.bufferText_runs (w := w) "" c.out).mono fun _ out hout => ?_
          refine (finishBody_wrote (w := w) { c with out := out }).mono ?_ fun _ _ => id
          rintro - c' ⟨hwrote, hstate', hresponse⟩
          have hpending' := pending_of_reading hstate' hresponse
          exact ⟨(wrote_out hout).trans hwrote, hstate'.trans hnext.symm, hpending'⟩
        · rw [if_neg (by simp [hstate]), if_pos hstate]
          refine (finishBody_wrote (w := w) c).mono ?_ fun _ _ => id
          rintro - c' ⟨hwrote, hstate', hresponse⟩
          exact ⟨hwrote, hstate'.trans hnext.symm, pending_of_reading hstate' hresponse⟩
    | error responseCode body => exact hkeeps.elim
  · rw [ends_of_run_ok (writerCall_eq_of_illegal hlegal)]
    exact ⟨Wrote.refl c, (next_of_illegal hlegal).symm, hpending⟩

/-- The uses of a writer one after another. -/
theorem writerCalls_use {calls : List WriterCall} (hkeeps : ∀ call ∈ calls, call.KeepsOpen)
    (hpending : Pending c) :
    Ends (forM calls (writerCall w)) c
      (fun _ c' => Wrote c c' ∧ c'.state = calls.foldl WriterCall.next c.state ∧ Pending c')
      fun _ _ => False := by
  induction calls generalizing c with
  | nil => exact ⟨Wrote.refl c, rfl, hpending⟩
  | cons call calls ih =>
      rw [List.forall_mem_cons] at hkeeps
      rw [List.forM_cons, ends_bind]
      refine (writerCall_uses (w := w) hkeeps.1 hpending).mono ?_ fun _ _ => id
      rintro - c₁ ⟨hwrote, hstate, hpending₁⟩
      refine (ih hkeeps.2 hpending₁).mono ?_ fun _ _ => id
      rintro - c₂ ⟨hwrote', hstate', hpending₂⟩
      exact ⟨hwrote.trans hwrote', by rw [hstate', hstate, List.foldl_cons], hpending₂⟩

/-! ### Handling a page -/

/-- The request has been handed to the page handlers, and `response` is what they made of it. -/
structure Answered (request : PageRequest) (response : Response) (c c' : Connection) : Prop where
  wrote : Wrote { c with calls := c.calls ++ [⟨.handle request, c.out⟩] } c'
  state : c'.state = response.calls.foldl WriterCall.next .awaitingResponseBegin
  pending : Pending c'

theorem handlePageRequest_answered {request : PageRequest} {response : Response}
    (hrequest : c.request = some request) (hresponse : c.response = none)
    (hhandle : w.handle c.calls request = .response response) (hkeeps : response.KeepsOpen) :
    Ends (handlePageRequest w) c
      (fun accepted c' => accepted = true ∧ Answered request response c c') fun _ _ => False := by
  rw [handlePageRequest, ends_bind, theRequest, ends_bind, ends_get, hrequest, ends_pure, ends_bind,
    ends_get]
  dsimp only
  rw [record, ends_bind, ends_modify, hhandle]
  dsimp only
  rw [sendResponse, handleResponse, ends_bind, ends_get, if_neg (by simp [hresponse]), ends_bind,
    ends_modify, ends_bind]
  generalize hstarted : ({ c with
    state := .awaitingResponseBegin
    response := some response
    transferEncoding := .raw
    chunk := 0
    calls := c.calls ++ [⟨.handle request, c.out⟩] } : Connection) = c₁
  have hstate : c₁.state = .awaitingResponseBegin := by rw [← hstarted]
  have hpending : Pending c₁ := by
    unfold Pending
    refine iff_of_true ?_ (Or.inl hstate)
    rw [← hstarted]
    rfl
  refine (writerCalls_use (w := w) hkeeps hpending).mono ?_ fun _ _ => id
  rintro - c' ⟨hwrote, hstate', hpending'⟩
  rw [hstate] at hstate'
  subst hstarted
  exact ⟨rfl, { hwrote with }, hstate', hpending'⟩

/-- A response leads to one of its own states or, once it is finished, back to the next request. -/
theorem foldl_next_mem (calls : List WriterCall) {state : State}
    (h : state = .readingHeaders ∨ state = .awaitingResponseBegin ∨ state = .sendingResponseHeaders ∨
      state = .sendingResponseBody) :
    calls.foldl WriterCall.next state = .readingHeaders ∨
      calls.foldl WriterCall.next state = .awaitingResponseBegin ∨
      calls.foldl WriterCall.next state = .sendingResponseHeaders ∨
      calls.foldl WriterCall.next state = .sendingResponseBody := by
  induction calls generalizing state with
  | nil => exact h
  | cons call calls ih =>
      rw [List.foldl_cons]
      refine ih ?_
      rcases h with rfl | rfl | rfl | rfl <;> cases call <;> simp [WriterCall.next]

theorem Answered.responding {request : PageRequest} {response : Response} {c' : Connection}
    (h : Answered request response c c') (hnot : ¬ response.Finishes) : Responding c' := by
  have hstates := foldl_next_mem response.calls (Or.inr (Or.inl rfl))
  rw [← h.state] at hstates
  rcases hstates with hreading | hstates
  · exact absurd (h.state.symm.trans hreading) hnot
  · exact hstates

end Connection

end Seasocks
