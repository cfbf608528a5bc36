import Seasocks.Proof.Flushing
import Seasocks.Proof.Moves

/-!
# Responses that complete

A response is pending in three states and in no others. One that finishes leaves the connection ready
for the next request, one that ends in an error page closes it; a document sent in place of the page
does neither.
-/

namespace Seasocks.Connection

open Program Relation

variable {w : World} {c : Connection}

/-! ### Pending responses -/

def Responding (c : Connection) : Prop := c.state = .awaitingResponseBegin ∨ Sending c

structure Sound (c : Connection) : Prop where
  noError : c.alive = true → c.out.hadSendError = false
  responding : c.response.isSome = true → Responding c

theorem Sound.response_eq_none (h : Sound c) (hstate : ¬ Responding c) : c.response = none := by
  cases hresponse : c.response with
  | none => rfl
  | some response => exact absurd (h.responding (by rw [hresponse]; rfl)) hstate

/-- A step that is not about a response. -/
theorem Sound.same {c' : Connection} (h : Sound c) (halive : c'.alive = c.alive)
    (hout : c'.out = c.out) (hstate : c'.state = c.state) (hresponse : c'.response = c.response) :
    Sound c' where
  noError := by
    rw [halive, hout]
    exact h.noError
  responding := by
    unfold Responding Sending
    rw [hresponse, hstate]
    exact h.responding

/-- A step of a connection without a response to another such state. -/
theorem Sound.idle {c' : Connection} (h : Sound c) (halive : c'.alive = c.alive)
    (hout : c'.out = c.out) (hresponse : c'.response = c.response) (hstate : ¬ Responding c) :
    Sound c' where
  noError := by
    rw [halive, hout]
    exact h.noError
  responding := by
    rw [hresponse, h.response_eq_none hstate]
    intro hsome
    cases hsome

theorem not_responding {state : State} (hstate : c.state = state)
    (hnot : state ≠ .awaitingResponseBegin ∧ state ≠ .sendingResponseHeaders ∧
      state ≠ .sendingResponseBody) : ¬ Responding c := by
  rintro (h | h | h)
  · exact hnot.1 (hstate.symm.trans h)
  · exact hnot.2.1 (hstate.symm.trans h)
  · exact hnot.2.2 (hstate.symm.trans h)

theorem Sound.sends {c' : Connection} (h : Sound c) (hsends : Sends w c c') : Sound c' := by
  obtain ⟨out, calls, rfl, hout, -⟩ := hsends.frame
  refine ⟨fun halive => ?_, h.responding⟩
  exact invariant_of_steps (fun o => o.hadSendError = false)
    (fun _ _ ho hstep => Output.OpStep.noError hstep ho) hout (h.noError halive)

theorem Sound.write {c' : Connection} (h : Sound c) (hstep : WriteStep w c c') : Sound c' := by
  cases hstep with
  | send hsend => exact h.sends (ReflTransGen.single hsend)
  | headers hstate => exact ⟨h.noError, fun _ => Or.inr (Or.inl rfl)⟩
  | encoding encoding hstate => exact h.same rfl rfl rfl rfl
  | body hstate => exact ⟨h.noError, fun _ => Or.inr (Or.inr rfl)⟩
  | chunk chunk hstate => exact h.same rfl rfl rfl rfl
  | finish hstate => exact ⟨h.noError, fun hsome => by cases hsome⟩

theorem Sound.answer {c' : Connection} (h : Sound c) (hstep : Answer w c c') : Sound c' := by
  cases hstep with
  | write hwrite => exact h.write hwrite
  | setHandler handler hstate => exact h.same rfl rfl rfl rfl
  | handle hstate hrequest htaken => exact h.same rfl rfl rfl rfl
  | openFile path opened hstate hrequest hcalls hrange => exact h.same rfl rfl rfl rfl
  | respond response hstate hnone => exact ⟨h.noError, fun _ => Or.inl rfl⟩
  | awaitKey hstate hhandler => exact h.idle rfl rfl rfl (not_responding hstate (by decide))
  | @connect c₁ before request handler out hstate hhandler hverb hcalls hout hsends =>
      have hwritten : Sound
          { c with out := out, calls := c.calls ++ [⟨.onConnect handler, out⟩] } :=
        ⟨fun halive => Output.noError_of_bufferSteps hout (h.noError halive), h.responding⟩
      have hreading := hsends.state_eq.trans hstate
      exact (hwritten.sends hsends).idle rfl rfl rfl (not_responding hreading (by decide))

theorem Sound.serve {c' : Connection} (h : Sound c) (hstep : Serve w c c') : Sound c' := by
  cases hstep with
  | answer hanswer => exact h.answer hanswer
  | initialise hstate => exact h.same rfl rfl rfl rfl
  | create request hstate hcontent => exact h.same rfl rfl rfl rfl
  | buffer hstate hrequest hcontent hlength hbounded =>
      exact h.idle rfl rfl rfl (not_responding hstate (by decide))

theorem Sound.move {c' : Connection} (h : Sound c) (hstep : Move w c c') : Sound c' := by
  cases hstep with
  | serve hserve => exact h.serve hserve
  | content hstate hrequest request' inBuf hconsume =>
      exact h.idle rfl rfl rfl (not_responding hstate (by decide))
  | connect hstate hhandler hcalls hout =>
      exact h.idle rfl rfl rfl (not_responding hstate (by decide))
  | connectNobody hstate hhandler =>
      exact h.idle rfl rfl rfl (not_responding hstate (by decide))
  | cancel hresponse => exact ⟨h.noError, fun hsome => by cases hsome⟩
  | @disconnect c₁ handler out halive hresponse hhandler hsends hout =>
      have hrecorded : Sound { c with calls := c.calls ++ [⟨.onDisconnect handler, c.out⟩] } :=
        h.same rfl rfl rfl rfl
      refine ⟨fun hgone => ?_, (hrecorded.sends hsends).responding⟩
      cases hgone
  | vanish halive hresponse hhandler hout =>
      refine ⟨fun hgone => ?_, h.responding⟩
      cases hgone
  | headers | overwrite | drop | key | message | frame | inflate | data | receive | enlarge =>
      exact h.same rfl rfl rfl rfl

theorem run_sound {events : List Event} (h : run w events fresh = .ok c) : Sound c := by
  refine run_invariant Sound (fun _ _ => Sound.move) (fun e c c' hc hthrown => ?_) h ?_
  · cases hthrown with
    | fault f => exact hc
    | range e path hstate hrequest hcalls hrange => exact hc.same rfl rfl rfl rfl
  · exact ⟨fun _ => rfl, fun hsome => by cases hsome⟩

/-! ### Calls that complete a response -/

/-- A call that ends a pending response. -/
def Completes (c : Connection) : WriterCall → Prop
  | .finish _ => Sending c
  | .error _ _ => c.state = .awaitingResponseBegin
  | .begin _ _ | .header _ _ | .payload _ _ => False

/-- The connection is on its way to be closed, or can take the next request. -/
def Ready (c : Connection) : Prop :=
  c.closing = true ∨ c.state = .readingHeaders ∧ c.response = none

/-- `send404` finds a document instead of an error page. -/
def HasDocument (w : World) (requestUri : Bytes) : Prop :=
  w.embeddedContent requestUri ≠ none ∨ cString requestUri = ascii "/_livestats.js"

/-- A response that does not finish ends in an error page that can be sent. -/
def Completable (w : World) (c : Connection) : WriterCall → Prop
  | .error responseCode _ =>
      Output.EpollSucceeds w ∧ (responseCode = .notFound → ¬ HasDocument w c.getRequestUri)
  | _ => True

theorem writeChunkHeader_ends (size : Nat) (c : Connection) :
    Ends (writeChunkHeader w size) c (fun _ _ => True) fun _ _ => False := by
  simp only [writeChunkHeader, ends_bind, ends_get, ends_set, ends_liftOut, ends_pure]
  exact After.of_forall fun _ _ => trivial

theorem finishBody_ready (keepConnectionOpen : Bool) (c : Connection) :
    Ends (finishBody w keepConnectionOpen) c (fun _ c' => Ready c') fun _ _ => False := by
  have close : ∀ c, Ends (do
      let _ ← liftOut (Output.flush w)
      if !keepConnectionOpen then
        liftOut Output.closeWhenEmpty
      modify fun c => { c with state := .readingHeaders, response := none } : ConnM Unit) c
      (fun _ c' => Ready c') fun _ _ => False := by
    intro c
    rw [ends_bind, ends_liftOut]
    refine After.of_forall fun _ out => ?_
    rw [ends_ite]
    refine ⟨fun _ => ?_, fun _ => Or.inr ⟨rfl, rfl⟩⟩
    rw [ends_bind, ends_liftOut]
    exact After.of_forall fun _ out => Or.inr ⟨rfl, rfl⟩
  rw [finishBody, ends_bind, ends_get, ends_ite]
  refine ⟨fun _ => ?_, fun _ => close c⟩
  rw [ends_bind]
  refine (writeChunkHeader_ends 0 c).mono (fun _ c₁ _ => ?_) fun _ _ => id
  rw [ends_bind, ends_liftOut]
  exact After.of_forall fun _ out => close _

theorem finish_ready (keepConnectionOpen : Bool) (hstate : Sending c) :
    Ends (finish w keepConnectionOpen) c (fun _ c' => Ready c') fun _ _ => False := by
  rw [finish, ends_bind, ends_get, ends_ite]
  refine ⟨fun _ => ?_, fun hheaders => ?_⟩
  · rw [ends_bind, ends_liftOut]
    exact After.of_forall fun _ out => finishBody_ready _ _
  · rw [if_pos (hstate.resolve_left hheaders)]
    exact finishBody_ready _ _

theorem sendError_completes (responseCode : ResponseCode) (body : Bytes)
    (hstate : c.state = .awaitingResponseBegin) :
    Ends (sendError w responseCode body) c
      (fun _ c' => Output.EpollSucceeds w → c.out.hadSendError = false → Ready c')
      fun _ _ => False := by
  rw [sendError, ends_bind, ends_get, ends_ite, hstate]
  refine ⟨fun hhixie => ?_, fun _ => ?_⟩
  · cases hhixie
  · rw [ends_liftOut]
    by_cases h : Output.EpollSucceeds w ∧ c.out.hadSendError = false
    · have hclosing := Output.sendError_closing responseCode body h.1 h.2
      exact hclosing.mono fun _ _ hc' _ _ => Or.inl hc'
    · exact After.of_forall fun _ _ hepoll hnoError => absurd ⟨hepoll, hnoError⟩ h

/-- Nothing has gone wrong on the socket since `c`. -/
def NoFailure (c c' : Connection) : Prop :=
  ∀ event ∈ c'.out.log.drop c.out.log.length, Output.isFailure event = false

/-- A run that can be computed, and has met no failure. -/
theorem exists_run_of_quiet {m : ConnM Bool}
    (h : (match m.run c with
      | .ok _ c' => decide (∀ event ∈ c'.out.log.drop c.out.log.length, Output.isFailure event = false)
      | .error _ _ => false) = true) :
    ∃ result c', m.run c = .ok result c' ∧ NoFailure c c' := by
  cases hrun : m.run c with
  | error e c' =>
      rw [hrun] at h
      cases h
  | ok result c' =>
      rw [hrun] at h
      have hquiet : ∀ event ∈ c'.out.log.drop c.out.log.length, Output.isFailure event = false :=
        of_decide_eq_true h
      exact ⟨result, c', rfl, hquiet⟩

/-- A document leaves the connection waiting for the response it already has. -/
theorem sendData_waits (type content : Bytes) (hstate : c.state = .awaitingResponseBegin)
    (hopen : c.closing = false) :
    Ends (liftOut (Output.sendData w type content)) c
      (fun _ c' => NoFailure c c' → ¬ Ready c') fun _ _ => False := by
  rw [ends_liftOut]
  refine (Output.sendData_runs type content c.out).mono fun _ out hsteps hquiet => ?_
  obtain ⟨events, hlog, hclosing, -⟩ := Output.quiet_of_bufferSteps hsteps
  rw [NoFailure, hlog, List.drop_left] at hquiet
  rintro (hclosed | ⟨hreading, -⟩)
  · have hstillOpen : out.closing = false := hclosing hopen hquiet
    rw [closing, hstillOpen] at hclosed
    cases hclosed
  · have hreading : c.state = .readingHeaders := hreading
    rw [hstate] at hreading
    cases hreading

theorem send404_completes (hstate : c.state = .awaitingResponseBegin) :
    Ends (send404 w) c
      (fun _ c' =>
        (Output.EpollSucceeds w → c.out.hadSendError = false →
          ¬ HasDocument w c.getRequestUri → Ready c') ∧
        (HasDocument w c.getRequestUri → c.closing = false → NoFailure c c' → ¬ Ready c'))
      fun _ _ => False := by
  have document : ∀ type content, HasDocument w c.getRequestUri →
      Ends (liftOut (Output.sendData w type content)) c
        (fun _ c' =>
          (Output.EpollSucceeds w → c.out.hadSendError = false →
            ¬ HasDocument w c.getRequestUri → Ready c') ∧
          (HasDocument w c.getRequestUri → c.closing = false → NoFailure c c' → ¬ Ready c'))
        fun _ _ => False := by
    intro type content hdocument
    by_cases hopen : c.closing = false
    · refine (sendData_waits type content hstate hopen).mono (fun _ c' hwaits => ?_) fun _ _ => id
      exact ⟨fun _ _ hnone => absurd hdocument hnone, fun _ _ => hwaits⟩
    · rw [ends_liftOut]
      exact After.of_forall fun _ _ =>
        ⟨fun _ _ hnone => absurd hdocument hnone, fun _ h => absurd h hopen⟩
  rw [send404, ends_bind, ends_get]
  dsimp only
  cases hembedded : w.embeddedContent c.getRequestUri with
  | some embedded => exact document _ _ (Or.inl (by simp [hembedded]))
  | none =>
      dsimp only
      rw [ends_ite]
      refine ⟨fun hstats => document _ _ (Or.inr hstats), fun hstats => ?_⟩
      have hnone : ¬ HasDocument w c.getRequestUri := by
        rintro (h | h)
        · exact h hembedded
        · exact hstats h
      refine (sendError_completes _ _ hstate).mono (fun _ c' h => ?_) fun _ _ => id
      exact ⟨fun hepoll hnoError _ => h hepoll hnoError, fun hdocument => absurd hdocument hnone⟩

/-! ### Every writer call -/

theorem begin_returns (responseCode : ResponseCode) (encoding : TransferEncoding) (c : Connection) :
    Ends (begin w responseCode encoding) c (fun _ _ => True) fun _ _ => False := by
  simp only [begin, setState, ends_bind, ends_get, ends_ite, ends_modify, ends_liftOut, ends_pure]
  exact ⟨fun _ => After.of_forall fun _ _ => ⟨fun _ => After.of_forall fun _ _ => trivial,
    fun _ => trivial⟩, fun _ => trivial⟩

theorem payloadBody_returns (data : Bytes) (flush : Bool) (c : Connection) :
    Ends (payloadBody w data flush) c (fun _ _ => True) fun _ _ => False := by
  rw [payloadBody, ends_bind, ends_get, ends_ite]
  constructor
  · intro _
    rw [ends_bind]
    refine (writeChunkHeader_ends _ c).mono (fun _ c' _ => ?_) fun _ _ => id
    rw [ends_bind, ends_liftOut]
    exact After.of_forall fun _ _ => trivial
  · intro _
    rw [ends_bind, ends_liftOut]
    exact After.of_forall fun _ _ => trivial

theorem payload_returns (data : Bytes) (flush : Bool) (c : Connection) :
    Ends (payload w data flush) c (fun _ _ => True) fun _ _ => False := by
  rw [payload, ends_bind, ends_get]
  simp only [ends_ite, ends_bind, ends_liftOut, setState, ends_modify, ends_pure]
  refine ⟨fun _ => After.of_forall fun _ _ => payloadBody_returns _ _ _, fun _ => ?_⟩
  exact ⟨fun _ => payloadBody_returns _ _ _, fun _ => trivial⟩

/-- No use of a writer is undefined, whatever the state. -/
theorem writerCall_returns (call : WriterCall) (c : Connection) :
    Ends (writerCall w call) c (fun _ _ => True) fun _ _ => False := by
  cases call with
  | begin responseCode encoding => exact begin_returns _ _ _
  | header name value =>
      simp only [writerCall, header, ends_bind, ends_get, ends_ite, ends_liftOut, ends_pure]
      exact ⟨fun _ => After.of_forall fun _ _ => trivial, fun _ => trivial⟩
  | payload data flush => exact payload_returns _ _ _
  | finish keepConnectionOpen =>
      by_cases hstate : Sending c
      · exact (finish_ready keepConnectionOpen hstate).mono (fun _ _ _ => trivial) fun _ _ => id
      · rw [Sending, not_or] at hstate
        rw [writerCall, finish, ends_bind, ends_get, ends_ite, if_neg hstate.2]
        exact ⟨fun h => absurd h hstate.1, fun _ => trivial⟩
  | error responseCode body =>
      rw [writerCall, error, ends_bind, ends_get, ends_ite, ends_ite]
      refine ⟨fun hstate => ⟨fun _ => ?_, fun _ => ?_⟩, fun _ => trivial⟩
      · rw [ends_bind]
        exact (send404_completes hstate).mono (fun _ _ _ => trivial) fun _ _ => id
      · rw [ends_bind]
        exact (sendError_completes _ _ hstate).mono (fun _ _ _ => trivial) fun _ _ => id

theorem writerCalls_return (calls : List WriterCall) (c : Connection) :
    Ends (forM calls (writerCall w)) c (fun _ _ => True) fun _ _ => False :=
  ends_forM (fun call _ c _ => writerCall_returns call c) trivial

theorem writerCall_completes {call : WriterCall} (hcompletes : Completes c call)
    (hnoError : c.out.hadSendError = false) :
    Ends (writerCall w call) c
      (fun _ c' => (Completable w c call → Ready c') ∧
        (¬ Completable w c call → Output.EpollSucceeds w → c.closing = false → NoFailure c c' →
          ¬ Ready c'))
      fun _ _ => False := by
  cases call with
  | begin | header | payload => exact hcompletes.elim
  | finish keepConnectionOpen =>
      refine (finish_ready keepConnectionOpen hcompletes).mono (fun _ c' hready => ?_) fun _ _ => id
      exact ⟨fun _ => hready, fun hnot => absurd trivial hnot⟩
  | error responseCode body =>
      have hstate : c.state = .awaitingResponseBegin := hcompletes
      rw [writerCall, error, ends_bind, ends_get, ends_ite, ends_ite]
      refine ⟨fun _ => ⟨fun hcode => ?_, fun hcode => ?_⟩, fun hnot => absurd hstate hnot⟩
      · rw [ends_bind]
        refine (send404_completes hstate).mono (fun _ c' h => ?_) fun _ _ => id
        refine ⟨fun hcompletable => ?_, fun hnot hepoll => h.2 ?_⟩
        · exact h.1 hcompletable.1 hnoError (hcompletable.2 hcode)
        · by_contra hnone
          exact hnot ⟨hepoll, fun _ => hnone⟩
      · rw [ends_bind]
        refine (sendError_completes _ _ hstate).mono (fun _ c' h => ?_) fun _ _ => id
        refine ⟨fun hcompletable => h hcompletable.1 hnoError, fun hnot hepoll => ?_⟩
        exact absurd ⟨hepoll, fun h => absurd h hcode⟩ hnot

theorem handleResponse_returns (response : Response) (hnone : c.response = none) :
    Ends (handleResponse w response) c (fun accepted _ => accepted = true) fun _ _ => False := by
  rw [handleResponse, ends_bind, ends_get, ends_ite, hnone]
  refine ⟨fun hsome => ?_, fun _ => ?_⟩
  · cases hsome
  · simp only [ends_bind, ends_modify, ends_pure]
    exact (writerCalls_return _ _).mono (fun _ _ _ => trivial) fun _ _ => id

/-- **Completed responses.** In every state a run passes through, a response is pending only where it
can be written, a new one can be started where requests are read, and a call that completes one closes
the connection or readies it for the next request if it is `Completable`. -/
theorem completed_ready {events : List Event} {c₀ : Connection}
    (hrun : run w events fresh = .ok c₀) (hmoves : Moves w c₀ c) :
    (c.response.isSome = true → Responding c) ∧
    (c.state = .readingHeaders → ∀ response,
      Ends (handleResponse w response) c (fun accepted _ => accepted = true) fun _ _ => False) ∧
    (c.alive = true → ∀ call, Completes c call →
      Ends (writerCall w call) c
        (fun _ c' => (Completable w c call → Ready c') ∧
          (¬ Completable w c call → Output.EpollSucceeds w → c.closing = false →
            NoFailure c c' → ¬ Ready c'))
        fun _ _ => False) := by
  have hsound : Sound c :=
    invariant_of_steps Sound (fun _ _ => Sound.move) hmoves (run_sound hrun)
  refine ⟨hsound.responding, fun hstate response => ?_, fun halive call hcompletes => ?_⟩
  · refine handleResponse_returns response (hsound.response_eq_none ?_)
    exact not_responding hstate (by decide)
  · exact writerCall_completes hcompletes (hsound.noError halive)

/-- The response to a request that is finished later. -/
theorem completed_ready_finish :
    ∃ c, run (.pages ⟨[.begin .ok .raw]⟩)
        [.readable (.data ⟨ascii "GET / HTTP/1.1\r\n\r\n", by decide⟩)] fresh = .ok c ∧
      Ends (writerCall (.pages ⟨[.begin .ok .raw]⟩) (.finish true)) c (fun _ c' => Ready c')
        fun _ _ => False := by
  have hrun : (do
      let c ← run (.pages ⟨[.begin .ok .raw]⟩)
        [.readable (.data ⟨ascii "GET / HTTP/1.1\r\n\r\n", by decide⟩)] fresh
      return (c.alive, c.state)) = .ok (true, .sendingResponseHeaders) := by decide +kernel
  obtain ⟨c, hc, hrun⟩ := ok_of_bind_eq_ok hrun
  injection hrun with hrun
  obtain ⟨halive, hstate⟩ := Prod.mk.inj hrun
  have hfinish := (completed_ready hc ReflTransGen.refl).2.2 halive (.finish true) (Or.inl hstate)
  exact ⟨c, hc, hfinish.mono (fun _ _ h => h.1 trivial) fun _ _ => id⟩

/-- A page handler that finds nothing under the name of the statistics document. -/
theorem not_ready_of_document :
    ∃ c c', run (.pages ⟨[]⟩)
        [.readable (.data ⟨ascii "GET /_livestats.js HTTP/1.1\r\n\r\n", by decide⟩)] fresh = .ok c ∧
      Completes c (.error .notFound []) ∧
      (writerCall (.pages ⟨[]⟩) (.error .notFound [])).run c = .ok () c' ∧ ¬ Ready c' := by
  have hrun : (do
      let c ← run (.pages ⟨[]⟩)
        [.readable (.data ⟨ascii "GET /_livestats.js HTTP/1.1\r\n\r\n", by decide⟩)] fresh
      match (writerCall (.pages ⟨[]⟩) (.error .notFound [])).run c with
      | .ok _ c' => return (c.state, c'.closing, c'.state)
      | .error _ _ => throw Fault.assertion) =
      .ok (.awaitingResponseBegin, false, .awaitingResponseBegin) := by decide +kernel
  obtain ⟨c, hc, hrun⟩ := ok_of_bind_eq_ok hrun
  cases hcall : (writerCall (.pages ⟨[]⟩) (.error .notFound [])).run c with
  | error e c' =>
      rw [hcall] at hrun
      cases hrun
  | ok result c' =>
      rw [hcall] at hrun
      injection hrun with hrun
      obtain ⟨hstate, hrest⟩ := Prod.mk.inj hrun
      obtain ⟨hopen, hstate'⟩ := Prod.mk.inj hrest
      refine ⟨c, c', hc, hstate, hcall, ?_⟩
      rintro (hclosing | ⟨hreading, -⟩)
      · rw [hopen] at hclosing
        cases hclosing
      · rw [hstate'] at hreading
        cases hreading

end Seasocks.Connection
