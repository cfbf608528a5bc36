import Seasocks.Proof.Inflating
import Seasocks.Proof.Touching
import Seasocks.Proof.WriterProtocol

/-!
# Graceful closes

A connection that is marked to close once its output buffer is empty takes up no more writes, and is
closed when everything has been sent. It goes on parsing requests, though, and an answer that is refused
closes it at once; and it stays open when the interest in write events cannot be given up.
-/

namespace Seasocks.Connection

open Program Relation

variable {w : World} {c : Connection}

/-! ### Answering a request -/

/-- The states between requests and responses. -/
def Http (c : Connection) : Prop := c.state = .readingHeaders ∨ Responding c

theorem Http.same {c' : Connection} (h : Http c) (hstate : c'.state = c.state) : Http c' := by
  unfold Http Responding Sending at h ⊢
  rwa [hstate]

/-- A request that is answered: no close but those that look at the buffer, nothing of note if the answer
is refused, and otherwise a mark only where the next request is waited for or a response is in progress. -/
structure Served (w : World) (c : Connection) (accepted : Bool) (c' : Connection) : Prop where
  steps : ReflTransGen (Output.StepBut w .closeInternal) c.out c'.out
  refused : accepted = false → c'.out.closeOnEmpty = c.out.closeOnEmpty ∧ c'.state = c.state
  marked : c'.out.closeOnEmpty = c.out.closeOnEmpty ∨ Http c'

/-- What a program that answers a request leaves, also where it throws. -/
def Serving (w : World) (m : ConnM Bool) (c : Connection) : Prop :=
  Ends m c (Served w c) fun _ c' => Served w c true c'

theorem Served.of_same {c₁ c' : Connection} {accepted : Bool} (h : Served w c₁ accepted c')
    (hout : c₁.out = c.out) (hstate : c₁.state = c.state) : Served w c accepted c' := by
  obtain ⟨hsteps, hrefused, hmarked⟩ := h
  rw [hout] at hsteps hrefused hmarked
  rw [hstate] at hrefused
  exact ⟨hsteps, hrefused, hmarked⟩

theorem served_same {c' : Connection} {accepted : Bool} (hout : c'.out = c.out)
    (hstate : c'.state = c.state) : Served w c accepted c' := by
  refine ⟨?_, fun _ => ⟨?_, hstate⟩, Or.inl ?_⟩
  · rw [hout]
  · rw [hout]
  · rw [hout]

/-- What neither sends anything nor changes the state may come first. -/
theorem Serving.after {m : ConnM Bool} {c₁ : Connection} (h : Serving w m c₁) (hout : c₁.out = c.out)
    (hstate : c₁.state = c.state) :
    Ends m c₁ (Served w c) fun _ c' => Served w c true c' :=
  Ends.mono h (fun _ _ hserved => hserved.of_same hout hstate) fun _ _ hserved =>
    hserved.of_same hout hstate

theorem unmarked_of_steps {o o' : Output} (h : ReflTransGen (Output.StepBut w .closeWhenEmpty) o o') :
    o'.closeOnEmpty = o.closeOnEmpty :=
  invariant_of_steps (fun o' => o'.closeOnEmpty = o.closeOnEmpty)
    (fun _ _ hsame hstep => (Output.StepBut.unmarked hstep).trans hsame) h rfl

theorem unmarked_of_buffers {o o' : Output} (h : ReflTransGen (Output.BufferStep w) o o') :
    o'.closeOnEmpty = o.closeOnEmpty :=
  unmarked_of_steps (ReflTransGen.mono (fun _ _ hstep => hstep.but (Or.inr rfl)) _ _ h)

theorem buffers_served {m : OutM Bool} (h : Runs (Output.BufferStep w) m) : Serving w (liftOut m) c := by
  rw [Serving, ends_liftOut]
  refine (h c.out).mono fun accepted out hsteps => ?_
  have hmark := unmarked_of_buffers hsteps
  refine ⟨?_, fun _ => ⟨hmark, rfl⟩, Or.inl hmark⟩
  exact ReflTransGen.mono (fun _ _ hstep => hstep.but (Or.inl rfl)) _ _ hsteps

/-- An error page that cannot be sent does not mark the connection. -/
theorem sendError_unmarked (code : ResponseCode) (body : Bytes) (o : Output) :
    After (Output.sendError w code body) o fun done o' =>
      done = false → o'.closeOnEmpty = o.closeOnEmpty := by
  have hlines : ∀ o₁ o₂, ReflTransGen (Output.BufferStep w) o₁ o₂ → o₁.closeOnEmpty = o.closeOnEmpty →
      o₂.closeOnEmpty = o.closeOnEmpty := fun _ _ hsteps h₁ => (unmarked_of_buffers hsteps).trans h₁
  refine Output.sendError_rule code body hlines rfl fun o₁ h₁ => ?_
  refine Output.flush_sameFlags.bind fun done o₂ h₂ => ?_
  rw [after_ite]
  refine ⟨fun _ => ?_, fun _ _ => h₂.2.trans h₁⟩
  rw [after_bind]
  exact After.of_forall fun _ _ hfalse => by cases hfalse

theorem sendError_refused (responseCode : ResponseCode) (body : Bytes) :
    Ends (sendError w responseCode body) c
      (fun accepted c' => c'.state = c.state ∧
        (accepted = false → c'.out.closeOnEmpty = c.out.closeOnEmpty)) fun _ c' => c' = c := by
  rw [sendError, ends_bind, ends_get, ends_ite]
  refine ⟨fun _ => rfl, fun _ => ?_⟩
  rw [ends_liftOut]
  exact (sendError_unmarked responseCode body c.out).mono fun _ _ h => ⟨rfl, h⟩

theorem sendError_served (responseCode : ResponseCode) (body : Bytes) (hhttp : Http c) :
    Serving w (sendError w responseCode body) c := by
  refine Ends.mono (Ends.and (sendError_touches _ _ _) (sendError_refused _ _)) ?_ ?_
  · rintro accepted c' ⟨htouches, hstate, hrefused⟩
    exact ⟨steps_of_touches htouches, fun hno => ⟨hrefused hno, hstate⟩, Or.inr (hhttp.same hstate)⟩
  · rintro e c' ⟨-, rfl⟩
    exact served_same rfl rfl

theorem send404_served (hhttp : Http c) : Serving w (send404 w) c := by
  have document : ∀ type content : Bytes, Serving w (liftOut (Output.sendData w type content)) c :=
    fun _ _ => buffers_served (Output.sendData_runs _ _)
  rw [Serving, send404, ends_bind, ends_get]
  dsimp only
  cases w.embeddedContent c.getRequestUri with
  | some embedded => exact document _ _
  | none =>
      dsimp only
      rw [ends_ite]
      exact ⟨fun _ => document _ _, fun _ => sendError_served _ _ hhttp⟩

theorem Http.write {c' : Connection} (hhttp : Http c) (hstep : WriteStep w c c') : Http c' := by
  cases hstep with
  | send hsend => exact hhttp.same (Sends.state_eq (ReflTransGen.single hsend))
  | headers => exact Or.inr (Or.inr (Or.inl rfl))
  | body => exact Or.inr (Or.inr (Or.inr rfl))
  | finish => exact Or.inl rfl
  | encoding | chunk => exact hhttp

theorem writerCall_http (call : WriterCall) (hhttp : Http c) :
    Ends (writerCall w call) c (fun _ c' => Http c') fun _ c' => Http c' := by
  have hsteps : ∀ c', Writes w c c' → Http c' := fun c' h =>
    invariant_of_steps Http (fun _ _ hc hstep => Http.write hc hstep) h hhttp
  refine Ends.mono (writerCall_writes call c) (fun _ c' => hsteps c') ?_
  rintro e c' ⟨c₁, hwrites, hthrown⟩
  cases hthrown with
  | fault f => exact hsteps c' hwrites
  | range e path hstate hrequest hcalls hrange => exact Or.inl hstate

theorem handleResponse_served (response : Response) : Serving w (handleResponse w response) c := by
  rw [Serving, handleResponse, ends_bind, ends_get, ends_ite]
  refine ⟨fun _ => served_same rfl rfl, fun _ => ?_⟩
  rw [ends_bind, ends_modify, ends_bind]
  generalize hresponding : ({ c with state := _, transferEncoding := _, chunk := _, response := _ }
    : Connection) = c₁
  have hout : c₁.out = c.out := by
    rw [← hresponding]
  have hhttp : Http c₁ := by
    rw [← hresponding]
    exact Or.inr (Or.inl rfl)
  let inv : Connection → Prop := fun c' =>
    ReflTransGen (Output.StepBut w .closeInternal) c.out c'.out ∧ Http c'
  have hinv : ∀ accepted c', inv c' → accepted = true → Served w c accepted c' := by
    rintro accepted c' ⟨hsteps, hhttp⟩ rfl
    exact ⟨hsteps, fun hfalse => absurd hfalse (by decide), Or.inr hhttp⟩
  have hcalls : Ends (forM response.calls (writerCall w)) c₁ (fun _ c' => inv c') fun _ c' => inv c' := by
    refine ends_forM (fun call _ c₂ h₂ => ?_) ⟨?_, hhttp⟩
    · refine Ends.mono (Ends.and (writerCall_touches call c₂) (writerCall_http call h₂.2)) ?_ ?_
      · rintro - c' ⟨htouches, hhttp'⟩
        exact ⟨h₂.1.trans (steps_of_touches htouches), hhttp'⟩
      · rintro e c' ⟨⟨c₃, htouches, hthrown⟩, hhttp'⟩
        refine ⟨h₂.1.trans ?_, hhttp'⟩
        rw [hthrown.out_eq]
        exact steps_of_touches htouches
    · rw [hout]
  exact hcalls.mono (fun _ c' h => hinv true c' h rfl) fun _ c' h => hinv true c' h rfl

theorem sendStaticData_served (hhttp : Http c) : Serving w (sendStaticData w) c := by
  rw [Serving, sendStaticData, ends_bind, ends_get]
  dsimp only
  cases (trimQuery (w.staticPath ++ c.getRequestUri)).getLast? with
  | none => exact served_same rfl rfl
  | some last =>
      dsimp only
      rw [record, ends_bind, ends_modify]
      generalize hopened : ({ c with calls := _ } : Connection) = c₁
      have hout : c₁.out = c.out := by
        rw [← hopened]
      have hstate : c₁.state = c.state := by
        rw [← hopened]
      have hhttp₁ : Http c₁ := by
        rw [← hopened]
        exact hhttp
      cases w.openFile c.calls (if last = 47 then _ else _) with
      | none => exact (send404_served hhttp₁).after hout hstate
      | some file =>
          dsimp only
          split
          · exact served_same hout hstate
          · exact (sendError_served _ _ hhttp₁).after hout hstate
          · rw [liftChecked, ends_bind, ends_liftOut]
            refine (Output.sendFile_runs _ _ _ c₁.out).mono fun result out hsteps => ?_
            have hmark := unmarked_of_buffers hsteps
            have hserved : ∀ accepted, Served w c₁ accepted { c₁ with out := out } := fun accepted =>
              ⟨ReflTransGen.mono (fun _ _ hstep => hstep.but (Or.inl rfl)) _ _ hsteps,
                fun _ => ⟨hmark, rfl⟩, Or.inl hmark⟩
            cases result with
            | ok sent => exact (hserved sent).of_same hout hstate
            | error f => exact (hserved true).of_same hout hstate

theorem handleHybiHandshake_served (webSocketVersion : Int) (webSocketKey : Bytes) (hhttp : Http c) :
    Serving w (handleHybiHandshake w webSocketVersion webSocketKey) c := by
  rw [Serving, handleHybiHandshake, ends_ite]
  refine ⟨fun _ => sendError_served _ _ hhttp, fun _ => ?_⟩
  rw [theRequest, ends_bind, ends_bind, ends_get]
  cases c.request with
  | none => exact served_same rfl rfl
  | some request =>
      dsimp only
      rw [ends_pure, ends_bind, ends_get, ends_bind, ends_liftOut]
      refine (Output.hybiHandshake_runs _ _ _ _ c.out).mono fun _ out hsteps => ?_
      have hbuffered : ∀ {excluded : Output.Op},
          excluded = .closeInternal ∨ excluded = .closeWhenEmpty →
          ReflTransGen (Output.StepBut w excluded) c.out out := fun hexcluded =>
        ReflTransGen.mono (fun _ _ hstep => hstep.but hexcluded) _ _ hsteps
      have accepted : ∀ {c' : Connection},
          (∀ {excluded : Output.Op}, excluded = .closeInternal ∨ excluded = .closeWhenEmpty →
            ReflTransGen (Output.StepBut w excluded) c.out c'.out) → Served w c true c' :=
        fun h => ⟨h (Or.inl rfl), fun hfalse => absurd hfalse (by decide),
          Or.inl (unmarked_of_steps (h (Or.inr rfl)))⟩
      cases c.webSocketHandler with
      | none => exact accepted hbuffered
      | some handler =>
          have connected : ∀ {c₁ : Connection} {excluded : Output.Op}, c₁.out = out →
              excluded = .closeInternal ∨ excluded = .closeWhenEmpty →
              Ends (onConnect w handler) c₁
                (fun _ c' => ReflTransGen (Output.StepBut w excluded) c.out c'.out) fun _ _ => False := by
            intro c₁ excluded hout hexcluded
            refine (callHandler_touches hexcluded _ _ c₁).mono (fun _ _ htouches => ?_) fun _ _ => id
            have hsteps' := steps_of_touches htouches
            rw [hout] at hsteps'
            exact (hbuffered hexcluded).trans hsteps'
          dsimp only
          rw [ends_bind]
          refine Ends.mono (Ends.and (connected rfl (Or.inl rfl)) (connected rfl (Or.inr rfl)))
            (fun _ c' h => ?_) fun _ _ h => h.1.elim
          rw [setState, ends_bind, ends_modify]
          exact ⟨h.1, fun hfalse => absurd hfalse (by decide), Or.inl (unmarked_of_steps h.2)⟩

theorem handleUpgrade_served (request : PageRequest) (hhttp : Http c) :
    Serving w (handleUpgrade w request) c := by
  rw [Serving, handleUpgrade, ends_bind, ends_modify]
  generalize hinstalled : ({ c with webSocketHandler := _ } : Connection) = c₁
  have hout : c₁.out = c.out := by
    rw [← hinstalled]
  have hstate : c₁.state = c.state := by
    rw [← hinstalled]
  have hhttp₁ : Http c₁ := by
    rw [← hinstalled]
    exact hhttp
  cases stoi (request.getHeader (ascii "Sec-WebSocket-Version")) with
  | error _ => exact (sendError_served _ _ hhttp₁).after hout hstate
  | ok webSocketVersion =>
      dsimp only
      rw [ends_ite]
      refine ⟨fun _ => (send404_served hhttp₁).after hout hstate, fun _ => ?_⟩
      rw [ends_ite]
      refine ⟨fun _ => ?_, fun _ => (handleHybiHandshake_served _ _ hhttp₁).after hout hstate⟩
      rw [setState, ends_bind, ends_modify]
      refine ⟨?_, fun hfalse => absurd hfalse (by decide), Or.inl ?_⟩
      · rw [hout]
      · rw [hout]

theorem handlePageRequest_served (hhttp : Http c) : Serving w (handlePageRequest w) c := by
  rw [Serving, handlePageRequest, theRequest, ends_bind, ends_bind, ends_get]
  cases c.request with
  | none => exact served_same rfl rfl
  | some request =>
      dsimp only
      rw [ends_pure, ends_bind, ends_get, record, ends_bind, ends_modify]
      generalize hhandled : ({ c with calls := _ } : Connection) = c₁
      have hout : c₁.out = c.out := by
        rw [← hhandled]
      have hstate : c₁.state = c.state := by
        rw [← hhandled]
      have hhttp₁ : Http c₁ := by
        rw [← hhandled]
        exact hhttp
      cases w.handle c.calls request with
      | throws what => exact (sendError_served _ _ hhttp₁).after hout hstate
      | throwsUnknown => exact (sendError_served _ _ hhttp₁).after hout hstate
      | response response => exact (handleResponse_served response).after hout hstate
      | unhandled =>
          dsimp only
          rw [ends_ite]
          refine ⟨fun _ => (handleUpgrade_served request hhttp₁).after hout hstate, fun _ => ?_⟩
          exact (sendStaticData_served hhttp₁).after hout hstate

theorem processRequest_served (verb : Verb) (requestUri : Bytes) (headers : HeaderMap) (hhttp : Http c) :
    Serving w (processRequest w verb requestUri headers) c := by
  unfold processRequest
  rw [Serving, ends_bind, ends_modify]
  generalize hcreated : ({ c with request := _ } : Connection) = c₁
  have hout : c₁.out = c.out := by
    rw [← hcreated]
  have hstate : c₁.state = c.state := by
    rw [← hcreated]
  have hhttp₁ : Http c₁ := by
    rw [← hcreated]
    exact hhttp
  split
  · exact (buffers_served (Output.sendData_runs _ _)).after hout hstate
  · exact (buffers_served (Output.bufferContentHeaders_runs _ _)).after hout hstate
  · rw [ends_ite, ends_ite]
    refine ⟨fun _ => (sendError_served _ _ hhttp₁).after hout hstate,
      fun _ => ⟨fun _ => (handlePageRequest_served hhttp₁).after hout hstate, fun _ => ?_⟩⟩
    rw [setState, ends_bind, ends_modify]
    refine ⟨?_, fun hfalse => absurd hfalse (by decide), Or.inl ?_⟩
    · rw [hout]
    · rw [hout]

theorem parsePerMessageDeflateHeader_same (header : Bytes) :
    Ends (parsePerMessageDeflateHeader header) c
      (fun _ c' => c'.out = c.out ∧ c'.state = c.state) fun _ _ => False := by
  rw [parsePerMessageDeflateHeader]
  refine ends_forM (fun extField _ c₁ h₁ => ?_) ⟨rfl, rfl⟩
  rw [ends_ite]
  refine ⟨fun _ => ?_, fun _ => h₁⟩
  rw [ends_bind, ends_modify, record, ends_modify]
  exact h₁

theorem processParsed_served (verb : Verb) (requestUri : Bytes) (headers : HeaderMap) (hhttp : Http c) :
    Serving w (processParsed w verb requestUri headers) c := by
  rw [Serving, processParsed, ends_ite]
  refine ⟨fun _ => ?_, fun _ => processRequest_served _ _ _ hhttp⟩
  rw [ends_ite]
  refine ⟨fun _ => sendError_served _ _ hhttp, fun _ => ?_⟩
  rw [ends_bind, ends_modify, ends_ite]
  generalize hinstalled : ({ c with webSocketHandler := _ } : Connection) = c₁
  have hout : c₁.out = c.out := by
    rw [← hinstalled]
  have hstate : c₁.state = c.state := by
    rw [← hinstalled]
  have hhttp₁ : Http c₁ := by
    rw [← hinstalled]
    exact hhttp
  refine ⟨fun _ => (send404_served hhttp₁).after hout hstate, fun _ => ?_⟩
  rw [ends_ite]
  refine ⟨fun _ => ?_, fun _ => (processRequest_served _ _ _ hhttp₁).after hout hstate⟩
  rw [ends_bind]
  refine (parsePerMessageDeflateHeader_same _).mono (fun _ c₂ h₂ => ?_) fun _ _ => False.elim
  exact (processRequest_served _ _ _ (hhttp₁.same h₂.2)).after (h₂.1.trans hout) (h₂.2.trans hstate)

theorem processHeaders_served (last : Nat) (hhttp : Http c) : Serving w (processHeaders w last) c := by
  rw [Serving, processHeaders, ends_bind, ends_get]
  cases RequestParser.block.run (c.inBuf.take last) with
  | ok parsed memory =>
      obtain ⟨verb, requestUri, headers⟩ := parsed
      dsimp only
      rw [ends_bind, ends_set]
      refine Serving.after (processParsed_served _ _ _ ?_) rfl rfl
      exact hhttp
  | error stop memory =>
      cases stop with
      | fault f => exact served_same rfl rfl
      | reject responseCode reason =>
          dsimp only
          rw [ends_bind, ends_set]
          refine Serving.after (sendError_served _ _ ?_) rfl rfl
          exact hhttp

/-! ### Turns -/

/-- Closed without a mark, where nothing marks it any more. -/
def Ended (c : Connection) : Prop :=
  c.closed = true ∧ c.out.closeOnEmpty = false ∧ ¬ Responding c

/-- Nothing has been cut off behind a mark, and a marked connection is no WebSocket. -/
structure Orderly (c : Connection) : Prop where
  kept : Output.Drained c.out ∨ Ended c
  http : c.out.closeOnEmpty = true → c.closed = false → Http c

theorem drained_of_steps {o o' : Output} (h : ReflTransGen (Output.StepBut w .closeInternal) o o')
    (ho : Output.Drained o) : Output.Drained o' :=
  invariant_of_steps Output.Drained (fun _ _ hdrained hstep => Output.StepBut.drained hstep hdrained) h ho

theorem closed_of_steps {o o' : Output} {excluded : Output.Op}
    (h : ReflTransGen (Output.StepBut w excluded) o o') (ho : o.closed = true) : o'.closed = true :=
  invariant_of_steps (fun o => o.closed = true)
    (fun _ _ hclosed hstep => Output.OpStep.closed (Output.StepBut.op hstep) hclosed) h ho

/-- A mark that is set while a request is answered. -/
theorem Served.orderly {c' : Connection} {accepted : Bool} (h : Served w c accepted c')
    (hdrained : Output.Drained c.out) (hfree : c.out.closeOnEmpty = true → c.closed = true) :
    Orderly c' := by
  refine ⟨Or.inl (drained_of_steps h.steps hdrained), fun hmarked hopen => ?_⟩
  rcases h.marked with hsame | hhttp
  · have hclosed : c'.closed = true := closed_of_steps h.steps (hfree (hsame.symm.trans hmarked))
    rw [hopen] at hclosed
    cases hclosed
  · exact hhttp

theorem Served.drained {c' : Connection} {accepted : Bool} (h : Served w c accepted c')
    (hdrained : Output.Drained c.out) : Output.Drained c'.out := drained_of_steps h.steps hdrained

theorem closeInternal_orderly
    (h : Output.Drained c.out ∧ c.closed = true ∨ c.out.closeOnEmpty = false ∧ ¬ Responding c) :
    Ends closeInternal c (fun _ c' => Orderly c') fun _ _ => False := by
  rw [closeInternal, ends_liftOut]
  have hstep : After Output.closeInternal c.out fun _ o' => Output.OpStep .plain c.out o' :=
    ⟨.closeInternal, rfl⟩
  refine (((Output.closeInternal_closes c.out).and (Output.closeInternal_sameFlags c.out)).and hstep).mono
    fun _ out hout => ?_
  obtain ⟨⟨⟨-, hclosed⟩, hsame, -⟩, hstep⟩ := hout
  refine ⟨?_, fun _ hopen => ?_⟩
  · rcases h with ⟨hdrained, hbefore⟩ | ⟨hunmarked, hstate⟩
    · exact Or.inl (hstep.drained hdrained hbefore)
    · exact Or.inr ⟨hclosed, hsame.2.trans hunmarked, hstate⟩
  · have hnot : out.closed = false := hopen
    rw [hclosed] at hnot
    cases hnot

/-- The close that follows a refused answer. -/
theorem Served.close {c' : Connection} (h : Served w c false c') (hdrained : Output.Drained c.out)
    (hfree : c.out.closeOnEmpty = true → c.closed = true) (hstate : ¬ Responding c) :
    Ends closeInternal c' (fun _ c' => Orderly c') fun _ _ => False := by
  obtain ⟨hmark, hsame⟩ := h.refused rfl
  apply closeInternal_orderly
  cases hmarked : c.out.closeOnEmpty with
  | true => exact Or.inl ⟨h.drained hdrained, closed_of_steps h.steps (hfree hmarked)⟩
  | false =>
      refine Or.inr ⟨hmark.trans hmarked, ?_⟩
      unfold Responding Sending at hstate ⊢
      rwa [hsame]

/-- Where a header block may be complete, the connection is not waiting to be closed. -/
def NothingBehindMark (c : Connection) : Prop :=
  c.state = .readingHeaders → c.out.closeOnEmpty = true → c.closed = false →
    find (crlf ++ crlf) c.inBuf = none

theorem handleHeaders_orderly (hstate : c.state = .readingHeaders) (hdrained : Output.Drained c.out)
    (hnothing : NothingBehindMark c) :
    Ends (handleHeaders w) c
      (fun goOn c' => (goOn = true → Output.Drained c'.out) ∧ Orderly c') fun _ c' => Orderly c' := by
  have hhttp : Http c := Or.inl hstate
  have same : ∀ c' : Connection, c'.out = c.out → c'.state = c.state → Orderly c' := by
    intro c' hout hsame
    refine ⟨Or.inl ?_, fun _ _ => hhttp.same hsame⟩
    rwa [hout]
  rw [handleHeaders, ends_bind, ends_get]
  cases hfind : find (crlf ++ crlf) c.inBuf with
  | none =>
      dsimp only
      rw [ends_ite]
      refine ⟨fun _ => ?_, fun _ => ⟨fun hfalse => absurd hfalse (by decide), same c rfl rfl⟩⟩
      rw [ends_bind]
      refine Ends.mono (Ends.and (sendError_touches _ _ _) (sendError_refused _ _)) ?_ ?_
      · rintro accepted c' ⟨htouches, hsame, -⟩
        refine ⟨fun hfalse => absurd hfalse (by decide), Or.inl ?_, fun _ _ => hhttp.same hsame⟩
        exact drained_of_steps (steps_of_touches htouches) hdrained
      · rintro e c' ⟨-, rfl⟩
        exact same c' rfl rfl
  | some i =>
      have hfree : c.out.closeOnEmpty = true → c.closed = true := by
        intro hmarked
        by_contra hopen
        have hnone := hnothing hstate hmarked (by simpa using hopen)
        rw [hfind] at hnone
        cases hnone
      dsimp only
      rw [record, ends_bind, ends_modify, ends_bind]
      have hserved := processHeaders_served (w := w)
        (c := { c with calls := c.calls ++ [⟨.headers (c.inBuf.take (i + 4)), c.out⟩] }) (i + 2) hhttp
      refine Ends.mono hserved (fun accepted c₁ h₁ => ?_) fun _ c' h' => h'.orderly hdrained hfree
      rw [ends_ite]
      refine ⟨fun _ => ?_, fun hrefused => ?_⟩
      · rw [ends_bind, ends_modify, ends_pure]
        have horderly := h₁.orderly hdrained hfree
        exact ⟨fun _ => h₁.drained hdrained, horderly.kept, horderly.http⟩
      · rw [Bool.not_eq_true] at hrefused
        rw [hrefused] at h₁
        rw [ends_bind]
        have hreading := not_responding (c := c) hstate (by decide)
        refine (h₁.close hdrained hfree hreading).mono ?_ fun _ _ => False.elim
        exact fun _ _ h => ⟨fun hfalse => absurd hfalse (by decide), h⟩

theorem handleBufferingPostData_orderly (hdrained : Output.Drained c.out)
    (hfree : c.out.closeOnEmpty = true → c.closed = true) :
    Ends (handleBufferingPostData w) c (fun _ c' => Orderly c') fun _ c' => Orderly c' := by
  have unchanged : Orderly c := by
    refine ⟨Or.inl hdrained, fun hmarked hopen => ?_⟩
    rw [hfree hmarked] at hopen
    cases hopen
  rw [handleBufferingPostData, ends_bind, ends_get, theRequest, ends_bind, ends_bind, ends_get]
  cases c.request with
  | none => exact unchanged
  | some request =>
      dsimp only
      rw [ends_pure]
      cases request.consumeContent c.inBuf with
      | none => exact unchanged
      | some consumed =>
          obtain ⟨request', inBuf⟩ := consumed
          dsimp only
          rw [record, ends_bind, ends_modify, ends_bind, ends_modify]
          generalize htaken : ({ c with
            state := .readingHeaders
            request := some request'
            inBuf := inBuf
            calls := _ } : Connection) = c₁
          have hout : c₁.out = c.out := by
            rw [← htaken]
          have hstate : c₁.state = .readingHeaders := by
            rw [← htaken]
          have hdrained₁ : Output.Drained c₁.out := hout ▸ hdrained
          have hfree₁ : c₁.out.closeOnEmpty = true → c₁.closed = true := by
            rw [closed, hout]
            exact hfree
          rw [ends_bind]
          refine Ends.mono (handlePageRequest_served (Or.inl hstate)) (fun accepted c₂ h₂ => ?_)
            fun _ c' h' => h'.orderly hdrained₁ hfree₁
          rw [ends_ite]
          refine ⟨fun hrefused => ?_, fun _ => h₂.orderly hdrained₁ hfree₁⟩
          have hno : accepted = false := by
            simpa using hrefused
          subst hno
          exact (h₂.close hdrained₁ hfree₁ (not_responding hstate (by decide))).mono (fun _ _ => id)
            fun _ _ => False.elim

/-- A connection that waits for a key or for messages. -/
def Switched (c : Connection) : Prop := c.state = .readingWebSocketKey3 ∨ IsWebSocket c

theorem Switched.not_responding (h : Switched c) : ¬ Responding c := by
  rcases h with h | h | h
  · exact Connection.not_responding h (by decide)
  · exact Connection.not_responding h (by decide)
  · exact Connection.not_responding h (by decide)

theorem Switched.not_http (h : Switched c) : ¬ Http c := by
  rintro (hstate | hresponding)
  · rcases h with h | h | h <;> · rw [hstate] at h; cases h
  · exact h.not_responding hresponding

/-- What is done with messages never marks the connection. -/
theorem orderly_of_messages {c' : Connection} (hdrained : Output.Drained c.out)
    (hfree : c.out.closeOnEmpty = true → c.closed = true)
    (hsteps : ReflTransGen (Output.StepBut w .closeWhenEmpty) c.out c'.out) (hstate : ¬ Responding c') :
    Orderly c' := by
  have hsame := unmarked_of_steps hsteps
  refine ⟨?_, fun hmarked hopen => ?_⟩
  · cases hclosed : c.closed with
    | true =>
        have hkept : Output.Drained c'.out ∧ c'.out.closed = true :=
          invariant_of_steps (fun o => Output.Drained o ∧ o.closed = true)
            (fun _ _ ho hstep => ⟨(Output.StepBut.op hstep).drained ho.1 ho.2,
              (Output.StepBut.op hstep).closed ho.2⟩) hsteps ⟨hdrained, hclosed⟩
        exact Or.inl hkept.1
    | false =>
        cases hclosed' : c'.closed with
        | false => exact Or.inl (Output.drained_of_open hclosed')
        | true =>
            refine Or.inr ⟨hclosed', hsame.trans ?_, hstate⟩
            by_contra hmarked
            rw [hfree (by simpa using hmarked)] at hclosed
            cases hclosed
  · have hclosed : c'.closed = true := closed_of_steps hsteps (hfree (hsame.symm.trans hmarked))
    rw [hopen] at hclosed
    cases hclosed

theorem messages_orderly {m : ConnM Unit} (htouches : Steps (Touches w .closeWhenEmpty) Thrown m c)
    (hstate : Ends m c (fun _ c' => ¬ Responding c') fun _ c' => ¬ Responding c')
    (hdrained : Output.Drained c.out) (hfree : c.out.closeOnEmpty = true → c.closed = true) :
    Ends m c (fun _ c' => Orderly c') fun _ c' => Orderly c' := by
  refine Ends.mono (Ends.and htouches hstate) ?_ ?_
  · rintro - c' ⟨hsteps, hstate'⟩
    exact orderly_of_messages hdrained hfree (steps_of_touches hsteps) hstate'
  · rintro e c' ⟨⟨c₁, hsteps, hthrown⟩, hstate'⟩
    refine orderly_of_messages (w := w) hdrained hfree ?_ hstate'
    rw [hthrown.out_eq]
    exact steps_of_touches hsteps

/-- A program that takes messages leaves the connection upgraded. -/
theorem webSocket_not_responding {m : ConnM Unit} (hmoves : Steps (Take w) Thrown m c)
    (hstate : IsWebSocket c) :
    Ends m c (fun _ c' => ¬ Responding c') fun _ c' => ¬ Responding c' := by
  have hstays : ∀ c', ReflTransGen (Take w) c c' → ¬ Responding c' := by
    intro c' htakes
    have hsame := Moves.webSocket (ReflTransGen.mono (fun _ _ => And.left) _ _ htakes) hstate
    have hupgraded : Switched c' := by
      unfold Switched IsWebSocket
      rw [hsame]
      exact Or.inr hstate
    exact hupgraded.not_responding
  refine Ends.mono hmoves (fun _ => hstays) ?_
  rintro e c' ⟨c₁, htakes, hthrown⟩
  cases hthrown with
  | fault f => exact hstays c' htakes
  | range e path hreading => exact not_responding hreading (by decide)

theorem startHixie_not_responding :
    Ends (startHixie w) c (fun _ c' => ¬ Responding c') fun _ c' => ¬ Responding c' := by
  rw [startHixie, ends_bind, ends_modify, ends_bind, ends_get]
  generalize hstarted : ({ c with state := _, inBuf := _ } : Connection) = c₁
  have hstate : c₁.state = .handlingHixieWebSocket := by
    rw [← hstarted]
  cases c₁.webSocketHandler with
  | none => exact not_responding hstate (by decide)
  | some handler =>
      refine (callHandler_ends _ _ c₁).mono (fun _ c' hsends => ?_) fun _ _ => False.elim
      have hsame := hsends.state_eq
      exact not_responding (hsame.trans hstate) (by decide)

theorem handleWebSocketKey3_not_responding (hstate : c.state = .readingWebSocketKey3) :
    Ends (handleWebSocketKey3 w) c (fun _ c' => ¬ Responding c') fun _ c' => ¬ Responding c' := by
  have hwaiting : ¬ Responding c := not_responding hstate (by decide)
  rw [handleWebSocketKey3, ends_bind, ends_get, ends_ite]
  refine ⟨fun _ => ?_, fun _ => hwaiting⟩
  rw [theRequest, ends_bind, ends_bind, ends_get]
  cases c.request with
  | none => exact hwaiting
  | some request =>
      dsimp only
      rw [ends_pure, record, ends_bind, ends_modify, ends_bind, ends_liftOut]
      exact After.of_forall fun _ _ => startHixie_not_responding

/-- What a turn must find, and every further one. -/
theorem handleNewDataFrom_orderly (fuel : Nat) (hdrained : Output.Drained c.out)
    (hhttp : c.out.closeOnEmpty = true → c.closed = false → Http c)
    (hnothing : ∀ c', Turns w c c' → NothingBehindMark c') :
    Ends (handleNewDataFrom w fuel) c (fun _ c' => Orderly c') fun _ c' => Orderly c' := by
  have unchanged : Orderly c := ⟨Or.inl hdrained, hhttp⟩
  have free : ¬ Http c → c.out.closeOnEmpty = true → c.closed = true := by
    intro hnot hmarked
    by_contra hopen
    exact hnot (hhttp hmarked (by simpa using hopen))
  induction fuel generalizing c with
  | zero => exact unchanged
  | succ fuel ih =>
      rw [handleNewDataFrom, ends_bind, ends_get]
      cases hstate : c.state with
      | readingHeaders =>
          dsimp only
          rw [ends_bind]
          have hhead := handleHeaders_orderly (w := w) hstate hdrained (hnothing c (Turns.first c))
          refine Ends.mono (Ends.and hhead (ends_run (handleHeaders w) c)) ?_ fun _ _ h => h.1
          rintro goOn c₁ ⟨⟨hgoes, horderly⟩, hrun⟩
          rw [ends_ite]
          refine ⟨fun hgo => ?_, fun _ => horderly⟩
          subst hgo
          have hdrained₁ := hgoes rfl
          refine ih hdrained₁ horderly.http (fun c' hturns => ?_) horderly fun hnot hmarked => ?_
          · exact hnothing c' (Turns.next hstate hrun hturns)
          · by_contra hopen
            exact hnot (horderly.http hmarked (by simpa using hopen))
      | readingWebSocketKey3 =>
          have hupgraded : Switched c := Or.inl hstate
          exact messages_orderly (handleWebSocketKey3_touches c)
            (handleWebSocketKey3_not_responding hstate) hdrained (free hupgraded.not_http)
      | handlingHixieWebSocket =>
          have hupgraded : Switched c := Or.inr (Or.inl hstate)
          exact messages_orderly (handleHixieWebSocket_touches.steps c)
            (webSocket_not_responding (handleHixieWebSocket_takes hstate) (Or.inl hstate)) hdrained
            (free hupgraded.not_http)
      | handlingHybiWebSocket =>
          have hupgraded : Switched c := Or.inr (Or.inr hstate)
          exact messages_orderly (handleHybiWebSocket_touches c)
            (webSocket_not_responding (handleHybiWebSocket_takes hstate) (Or.inr hstate)) hdrained
            (free hupgraded.not_http)
      | bufferingPostData =>
          refine handleBufferingPostData_orderly hdrained (free ?_)
          rintro (hreading | hresponding)
          · rw [hstate] at hreading
            cases hreading
          · exact not_responding hstate (by decide) hresponding
      | awaitingResponseBegin | sendingResponseHeaders | sendingResponseBody | invalid => exact unchanged

/-! ### Events -/

/-- In no turn after a read is a header block complete in the buffer of a connection that is waiting to be
closed. -/
def NoRequestBehindMark (w : World) : Event → Connection → Prop
  | .readable (.data received), c =>
      c.closed = false → ∀ c', Turns w (afterRead c received.val) c' → NothingBehindMark c'
  | _, _ => True

/-- A marked connection that has been shut down has sent what was in its buffer. -/
def Finished (o : Output) : Prop :=
  o.closeOnEmpty = true → o.shutdown = true → o.outBuf = [] ∨ Output.Interrupted o

theorem closed_of_shutdown {o : Output} (h : o.shutdown = true) : o.closed = true := by
  rw [Output.closed, h, Bool.or_true]

theorem Orderly.finished (h : Orderly c) : Finished c.out := by
  intro hmarked hshutdown
  rcases h.kept with hdrained | ⟨-, hunmarked, -⟩
  · exact hdrained (closed_of_shutdown hshutdown)
  · rw [hmarked] at hunmarked
    cases hunmarked

/-- What the destructor does with the output side, before it closes the descriptor. -/
theorem destroy_ends (c : Connection) :
    Ends (destroy w) c
      (fun _ c' => c'.alive = false ∧ ∃ o,
        (∀ excluded, excluded = .closeInternal ∨ excluded = .closeWhenEmpty →
          ReflTransGen (Output.StepBut w excluded) c.out o) ∧ c'.out = (closeFd.run o).2)
      fun _ _ => False := by
  have hcancel : Ends cancelResponse c (fun _ c' => c'.out = c.out) fun _ _ => False := by
    simp only [cancelResponse, record, ends_bind, ends_get, ends_ite, ends_modify, ends_pure]
    exact ⟨fun _ => trivial, fun _ => trivial⟩
  rw [destroy, ends_bind]
  refine hcancel.mono (fun _ c₁ h₁ => ?_) fun _ _ => id
  rw [ends_bind, ends_get]
  cases c₁.webSocketHandler with
  | none =>
      refine ⟨rfl, c₁.out, fun excluded _ => ?_, rfl⟩
      rw [h₁]
  | some handler =>
      dsimp only
      rw [ends_bind]
      have hcalled : ∀ excluded, excluded = .closeInternal ∨ excluded = .closeWhenEmpty →
          Ends (onDisconnect w handler) c₁
            (fun _ c₂ => ReflTransGen (Touches w excluded) c₁ c₂) fun _ _ => False :=
        fun _ hexcluded => callHandler_touches hexcluded (.onDisconnect handler)
          (fun calls => w.onDisconnect calls handler) c₁
      refine Ends.mono (Ends.and (hcalled _ (Or.inl rfl)) (hcalled _ (Or.inr rfl))) (fun _ c₂ h₂ => ?_)
        fun _ _ h => h.1
      refine ⟨rfl, c₂.out, fun excluded hexcluded => ?_, rfl⟩
      rw [← h₁]
      rcases hexcluded with rfl | rfl
      · exact steps_of_touches h₂.1
      · exact steps_of_touches h₂.2

theorem closeFd_keeps (o : Output) :
    After closeFd o fun _ o' => ∃ events, o' = { o with fd := false, log := o.log ++ events } ∧
      ∀ event ∈ events, event = .closeFd := by
  simp only [closeFd, Output.record, after_bind, after_get, after_ite, after_modify]
  exact ⟨fun _ => ⟨[.closeFd], rfl, by simp⟩, fun _ => ⟨[], by simp, by simp⟩⟩

/-- Whether the connection lives or not. -/
def Settling (c : Connection) : Prop := Finished c.out ∧ (c.alive = true → Orderly c)

theorem Orderly.settling (h : Orderly c) : Settling c := ⟨h.finished, fun _ => h⟩

theorem Orderly.destroy (h : Orderly c) :
    Ends (destroy w) c (fun _ c' => Settling c') fun _ _ => False := by
  refine (destroy_ends c).mono ?_ fun _ _ => id
  rintro - c' ⟨hdead, o, hsteps, hout⟩
  have hfinished : Finished o := by
    intro hmarked hshutdown
    rcases h.kept with hdrained | ⟨-, hunmarked, -⟩
    · exact drained_of_steps (hsteps _ (Or.inl rfl)) hdrained (closed_of_shutdown hshutdown)
    · rw [unmarked_of_steps (hsteps _ (Or.inr rfl)), hunmarked] at hmarked
      cases hmarked
  refine ⟨?_, fun halive => ?_⟩
  · obtain ⟨events, hclose, -⟩ := (closeFd_keeps o).run
    rw [hout, hclose]
    exact fun hmarked hshutdown => (hfinished hmarked hshutdown).imp_right fun h => h.log events
  · rw [hdead] at halive
    cases halive

theorem handleDataReadyForRead_orderly (result : ReadResult) (h : Orderly c)
    (hresult : result ≠ .endOfStream) (hnothing : NoRequestBehindMark w (.readable result) c) :
    Ends (handleDataReadyForRead w result) c (fun _ c' => Orderly c') fun _ c' => Orderly c' := by
  rw [handleDataReadyForRead, ends_bind, ends_get, ends_ite]
  refine ⟨fun hopen => ?_, fun _ => h⟩
  have hopen : c.closed = false := by
    simpa using hopen
  cases result with
  | endOfStream => exact absurd rfl hresult
  | error => exact ⟨h.kept, h.http⟩
  | data received =>
      dsimp only
      rw [ends_bind, ends_set, handleNewData, ends_bind, ends_get]
      refine handleNewDataFrom_orderly (c := afterRead c received.val) _ ?_ h.http (hnothing hopen)
      exact Output.drained_of_open hopen

theorem writerCall_orderly (call : WriterCall) (h : Orderly c) :
    Ends (writerCall w call) c (fun _ c' => Orderly c') fun _ c' => Orderly c' := by
  by_cases hlegal : Legal c.state call
  · have hresponding : Responding c := by
      cases call with
      | begin | error => exact Or.inl hlegal
      | header => exact Or.inr (Or.inl hlegal)
      | payload | finish => exact Or.inr hlegal
    have hdrained : Output.Drained c.out := h.kept.resolve_right fun hended => hended.2.2 hresponding
    refine Ends.mono (Ends.and (writerCall_touches call c) (writerCall_http call (Or.inr hresponding))) ?_ ?_
    · rintro - c' ⟨htouches, hhttp⟩
      exact ⟨Or.inl (drained_of_steps (steps_of_touches htouches) hdrained), fun _ _ => hhttp⟩
    · rintro e c' ⟨⟨c₁, htouches, hthrown⟩, hhttp⟩
      refine ⟨Or.inl ?_, fun _ _ => hhttp⟩
      rw [hthrown.out_eq]
      exact drained_of_steps (steps_of_touches htouches) hdrained
  · rw [ends_of_run_ok (writerCall_eq_of_illegal hlegal)]
    exact h

theorem wsCall_orderly (call : WsCall) (h : Orderly c) :
    Ends (wsCall w call) c (fun _ c' => Orderly c') fun _ _ => False := by
  have htouches : ∀ excluded, excluded = .closeInternal ∨ excluded = .closeWhenEmpty →
      Ends (wsCall w call) c (fun _ c' => ReflTransGen (Touches w excluded) c c') fun _ _ => False :=
    fun _ hexcluded => wsCall_touches hexcluded call c
  refine Ends.mono (Ends.and (Ends.and (htouches _ (Or.inl rfl)) (htouches _ (Or.inr rfl)))
    (wsCall_sends call c)) ?_ fun _ _ h => h.2
  rintro - c' ⟨⟨hgentle, htalk⟩, hsends⟩
  have hgentle := steps_of_touches hgentle
  have hsame := unmarked_of_steps (steps_of_touches htalk)
  have hstate := Sends.state_eq hsends
  refine ⟨?_, fun hmarked hopen => ?_⟩
  · rcases h.kept with hdrained | ⟨hclosed, hunmarked, hresponding⟩
    · exact Or.inl (drained_of_steps hgentle hdrained)
    · refine Or.inr ⟨closed_of_steps hgentle hclosed, hsame.trans hunmarked, ?_⟩
      unfold Responding Sending at hresponding ⊢
      rwa [hstate]
  · refine (h.http (hsame.symm.trans hmarked) ?_).same hstate
    by_contra hclosed
    have hbefore : c.closed = true := by
      simpa using hclosed
    have hafter : c'.closed = true := closed_of_steps hgentle hbefore
    rw [hopen] at hafter
    cases hafter

theorem handleDataReadyForWrite_orderly (h : Orderly c) :
    Ends (liftOut (Output.handleDataReadyForWrite w)) c (fun _ c' => Orderly c') fun _ _ => False := by
  have htouches : ∀ excluded, excluded = .closeInternal ∨ excluded = .closeWhenEmpty →
      After (Output.handleDataReadyForWrite w) c.out
        fun _ o' => ReflTransGen (Output.StepBut w excluded) c.out o' := by
    intro excluded hexcluded
    have hruns : Runs (Output.StepBut w excluded) (Output.handleDataReadyForWrite w) := by
      refine Runs.single fun o => ⟨.handleDataReadyForWrite, ?_, rfl⟩
      rintro rfl
      simp at hexcluded
    exact hruns c.out
  rw [ends_liftOut]
  refine ((htouches _ (Or.inl rfl)).and (htouches _ (Or.inr rfl))).mono fun _ out hout => ?_
  have hsame := unmarked_of_steps hout.2
  refine ⟨?_, fun hmarked hopen => ?_⟩
  · rcases h.kept with hdrained | ⟨hclosed, hunmarked, hresponding⟩
    · exact Or.inl (drained_of_steps hout.1 hdrained)
    · exact Or.inr ⟨closed_of_steps hout.1 hclosed, hsame.trans hunmarked, hresponding⟩
  · refine (h.http (hsame.symm.trans hmarked) ?_).same rfl
    by_contra hclosed
    have hbefore : c.closed = true := by
      simpa using hclosed
    have hafter : out.closed = true := closed_of_steps hout.1 hbefore
    exact Bool.false_ne_true (hopen.symm.trans hafter)

/-- Every event finds and leaves the connection orderly, as long as it lives. -/
theorem step_settling (event : Event) (h : Settling c) (hnothing : NoRequestBehindMark w event c)
    (hevent : event ≠ .readable .endOfStream) : Holds Settling (step w event) c := by
  have orderly : ∀ {m : ConnM Unit},
      Ends m c (fun _ c' => Orderly c') (fun _ c' => Orderly c') → Holds Settling m c := fun hm =>
    Ends.mono hm (fun _ _ hc => hc.settling) fun _ _ hc => Or.inl hc.settling
  rw [Holds, step, ends_bind, ends_get]
  cases event with
  | readable result =>
      dsimp only
      rw [ends_ite]
      refine ⟨fun halive => orderly ?_, fun _ => ends_fault.mpr (Or.inr ⟨_, rfl⟩)⟩
      refine handleDataReadyForRead_orderly result (h.2 halive) ?_ hnothing
      rintro rfl
      exact hevent rfl
  | writable =>
      dsimp only
      rw [ends_ite]
      refine ⟨fun halive => orderly ?_, fun _ => ends_fault.mpr (Or.inr ⟨_, rfl⟩)⟩
      exact (handleDataReadyForWrite_orderly (h.2 halive)).mono (fun _ _ => id) fun _ _ => False.elim
  | writer call =>
      dsimp only
      rw [ends_ite, ends_ite]
      refine ⟨fun _ => ⟨fun halive => orderly ?_, fun _ => ends_fault.mpr (Or.inr ⟨_, rfl⟩)⟩, fun _ => h⟩
      exact writerCall_orderly call (h.2 halive)
  | socket call =>
      dsimp only
      rw [ends_ite]
      refine ⟨fun halive => orderly ?_, fun _ => ends_fault.mpr (Or.inr ⟨_, rfl⟩)⟩
      exact (wsCall_orderly call (h.2 halive)).mono (fun _ _ => id) fun _ _ => False.elim
  | destroy =>
      dsimp only
      rw [ends_ite]
      refine ⟨fun halive => ?_, fun _ => ends_fault.mpr (Or.inr ⟨_, rfl⟩)⟩
      exact (h.2 halive).destroy.mono (fun _ _ => id) fun _ _ => False.elim

/-! ### Runs -/

/-- What the operations and the close of the descriptor preserve, a run preserves. -/
theorem run_output (inv : Output → Prop) (hstep : ∀ o o', inv o → Output.OpStep w o o' → inv o')
    (hclose : ∀ o, inv o → inv (closeFd.run o).2) {events : List Event} {c' : Connection}
    (h : run w events c = .ok c') (hc : inv c.out) : inv c'.out := by
  refine run_induction (fun c => inv c.out) (fun event c hc => ?_) h hc
  by_cases hevent : event = .destroy
  · subst hevent
    rw [step, ends_bind, ends_get]
    dsimp only
    rw [ends_ite]
    refine ⟨fun _ => (destroy_ends c).mono ?_ fun _ _ => False.elim, fun _ => hc⟩
    rintro - c' ⟨-, o, hsteps, hout⟩
    rw [hout]
    refine hclose o (invariant_of_steps inv ?_ (hsteps _ (Or.inl rfl)) hc)
    exact fun _ _ ho hbut => hstep _ _ ho (Output.StepBut.op hbut)
  · have htakes : ∀ c', ReflTransGen (Take w) c c' → inv c'.out := fun c' hsteps => by
      refine invariant_of_steps (fun c => inv c.out) (fun c₁ c₂ h₁ htake => ?_) hsteps hc
      have hout := htake.1.out_steps.resolve_right fun hdestroyed => hdestroyed.1 htake.2.1
      exact invariant_of_steps inv hstep hout h₁
    refine Ends.mono (step_takes hevent c) (fun _ c' => htakes c') ?_
    rintro e c' ⟨c₁, hsteps, hthrown⟩
    rw [hthrown.out_eq]
    exact htakes c₁ hsteps

theorem closeFd_written (o : Output) :
    Output.written (closeFd.run o).2.log = Output.written o.log := by
  obtain ⟨events, hclose, hevents⟩ := (closeFd_keeps o).run
  have hnothing : Output.written events = [] := by
    refine List.flatMap_eq_nil_iff.mpr fun event hevent => ?_
    rw [hevents event hevent]
    rfl
  rw [hclose, Output.written_append, hnothing, List.append_nil]

theorem closeFd_balanced {o : Output} (h : Output.Balanced o) : Output.Balanced (closeFd.run o).2 := by
  have hwritten := closeFd_written o
  obtain ⟨events, hclose, hevents⟩ := (closeFd_keeps o).run
  rw [hclose] at hwritten ⊢
  refine ⟨h.1, fun hintact => ?_⟩
  have hnothing : Output.accepted events = [] := by
    refine List.flatMap_eq_nil_iff.mpr fun event hevent => ?_
    rw [hevents event hevent]
    rfl
  have hbefore : Output.Intact o := by
    refine ⟨fun event hevent => hintact.1 event ?_, fun data hdata => hintact.2 data ?_⟩
    · exact List.mem_append_left _ hevent
    · exact List.mem_append_left _ hdata
  rw [hwritten, ← h.2 hbefore, Output.emitted, Output.emitted, Output.accepted_append, hnothing,
    List.append_nil]

/-- The pending close of a connection is completed once the buffer is empty; unless the socket has failed,
the input has ended or the application has closed the connection, it is shut down only once all that was
written has been accepted; and nothing is written behind the mark. -/
structure Graceful (w : World) (events : List Event) (c : Connection) : Prop where
  closes : c.out.closeOnEmpty = true → c.out.outBuf = [] → c.closed = true
  completes : c.out.closeOnEmpty = true → c.out.shutdown = true → (∀ data, .send data .failed ∉ c.out.log) →
    .readable .endOfStream ∉ events → c.out.shutdownByUser = false →
    Output.accepted c.out.log = Output.written c.out.log
  refuses : ∀ before after c₁, events = before ++ after → run w before fresh = .ok c₁ →
    c₁.out.closeOnEmpty = true → Output.written c.out.log = Output.written c₁.out.log

theorem run_settling {events : List Event} (h : run w events fresh = .ok c)
    (hnothing : Throughout w (NoRequestBehindMark w) events fresh)
    (hend : .readable .endOfStream ∉ events) : Settling c := by
  refine run_holds
    (fun event c hc (hevent : NoRequestBehindMark w event c ∧ event ≠ .readable .endOfStream) =>
      step_settling event hc hevent.1 hevent.2) h ?_ ?_
  · exact Orderly.settling ⟨Or.inl (Output.drained_of_open rfl), fun hmarked => by cases hmarked⟩
  · rintro before event after c' rfl hbefore
    refine ⟨hnothing before event after c' rfl hbefore, ?_⟩
    rintro rfl
    exact hend (by simp)

theorem run_balanced {events : List Event} (h : run w events fresh = .ok c) : Output.Balanced c.out :=
  run_output Output.Balanced (fun _ _ ho hstep => Output.OpStep.balanced hstep ho)
    (fun _ => closeFd_balanced) h ⟨rfl, fun _ => rfl⟩

/-- Once it is marked, nothing more is written to a connection. -/
theorem run_refuses {events : List Event} {c' : Connection} (h : run w events c = .ok c')
    (hmarked : c.out.closeOnEmpty = true) : Output.written c'.out.log = Output.written c.out.log := by
  have hstart : c.out.closing = true := by
    rw [Output.closing, hmarked, Bool.or_true]
  refine (run_output
    (fun o => o.closing = true ∧ Output.written o.log = Output.written c.out.log) ?_ ?_ h ⟨hstart, rfl⟩).2
  · rintro o o' ⟨hclosing, hwritten⟩ hstep
    exact ⟨hstep.closing hclosing, (Output.OpStep.written_eq hstep hclosing).trans hwritten⟩
  · rintro o ⟨-, hwritten⟩
    refine ⟨?_, (closeFd_written o).trans hwritten⟩
    rw [Output.closing, Output.closed, (closeFd_after o).run, Bool.not_false, Bool.true_or, Bool.true_or]

/-- **Graceful closes.** In every run in which no header block is completed in the buffer of a connection
that waits to be closed, a pending close is graceful, wherever the last thing that has happened is not a
failure to unsubscribe from write events, and an overflow has not closed the connection before it was
marked. -/
theorem run_graceful {events : List Event} (h : run w events fresh = .ok c)
    (hnothing : Throughout w (NoRequestBehindMark w) events fresh)
    (hlast : c.out.log.getLast? ≠ some (.epollMod false false))
    (hroom : c.out.closeOnEmpty = true → .overflow ∉ c.out.log)
    (hsizes : ∀ data, .write data ∈ c.out.log → data.length < 2 ^ 32) : Graceful w events c := by
  refine ⟨fun hmarked hempty => ?_, fun hmarked hshutdown hsends hend huser => ?_, ?_⟩
  · have hcompleted : Output.Completed c.out := by
      refine run_output Output.Completed (fun _ _ ho hstep => Output.OpStep.completed hstep ho)
        (fun o _ => Output.completed_of_closed ?_) h (Output.completed_of_unmarked rfl)
      rw [Output.closed, (closeFd_after o).run, Bool.not_false, Bool.true_or]
    exact (hcompleted hmarked hempty).resolve_right hlast
  · have hquiet : ∀ event ∈ c.out.log, Output.isFailure event = false := by
      intro event hevent
      cases event with
      | send data result =>
          cases result with
          | failed => exact absurd hevent (hsends data)
          | sent count | wouldBlock => rfl
      | overflow => exact absurd hevent (hroom hmarked)
      | write data | epollMod wantWrite succeeded | shutdown | closeFd => rfl
    have hempty : c.out.outBuf = [] := by
      refine ((run_settling h hnothing hend).1 hmarked hshutdown).resolve_right ?_
      rintro (hclosedByUser | ⟨event, hevent, hfailure⟩)
      · rw [huser] at hclosedByUser
        cases hclosedByUser
      · rw [hquiet event hevent] at hfailure
        cases hfailure
    have hemitted := (run_balanced h).2 ⟨hquiet, hsizes⟩
    rwa [Output.emitted, hempty, List.append_nil] at hemitted
  · rintro before after c₁ rfl hbefore hmarked
    rw [run_append hbefore] at h
    exact run_refuses h hmarked

/-- The plain server on a socket whose buffer is full at first. -/
def congested : World :=
  { World.plain with
    send := fun log data =>
      if log.any fun event => event matches .send _ _ then .sent data.length else .wouldBlock }

/-- What is answered with an error page. -/
def malformed : { bytes : Bytes // bytes ≠ [] ∧ bytes.length ≤ readWriteBufferSize } :=
  ⟨ascii "BAD\r\n\r\n", by decide +kernel⟩

/-- An error page that is sent when the socket is ready. -/
theorem run_graceful_congested :
    ∃ c, run congested [.readable (.data malformed), .writable] fresh = .ok c ∧
      c.out.closeOnEmpty = true ∧ c.out.shutdown = true ∧
      Graceful congested [.readable (.data malformed), .writable] c := by
  have hrun : (do
      let c ← run congested [.readable (.data malformed), .writable] fresh
      return decide (c.out.closeOnEmpty = true ∧ c.out.shutdown = true ∧
        c.out.log.getLast? = some .shutdown ∧ .overflow ∉ c.out.log ∧
        ∀ event ∈ c.out.log, (Output.writtenBy event).length < 2 ^ 32))
      = (.ok true : Except Fault Bool) := by
    decide +kernel
  obtain ⟨c, hc, hrun⟩ := ok_of_bind_eq_ok hrun
  injection hrun with hrun
  obtain ⟨hmarked, hshutdown, hlast, hroom, hsizes⟩ := of_decide_eq_true hrun
  refine ⟨c, hc, hmarked, hshutdown, run_graceful hc ?_ ?_ (fun _ => hroom) fun data hdata => ?_⟩
  · intro before event after c₀ hsplit hbefore
    cases before with
    | nil =>
        injection hsplit with hevent
        injection hbefore with hbefore
        subst hevent hbefore
        intro _ c' hturns
        cases hturns with
        | first => exact fun _ hmarked => by cases hmarked
        | next hreading hheaders hturns =>
            rename_i c₁
            have hanswered := (ends_of_run_ok hheaders).mp (by decide +kernel :
              Ends (handleHeaders congested) (afterRead fresh malformed.val)
                (fun _ c₁ => c₁.inBuf = [] ∧
                  Ends (handleHeaders congested) c₁ (fun goOn _ => goOn = false) fun _ _ => False)
                fun _ _ => False)
            cases hturns with
            | first =>
                intro _ _ _
                rw [hanswered.1]
                decide
            | next hreading hagain => cases (ends_of_run_ok hagain).mp hanswered.2
    | cons first before =>
        injection hsplit with _ hsplit
        cases before with
        | nil =>
            injection hsplit with hevent
            subst hevent
            exact trivial
        | cons second before => simp at hsplit
  · rw [hlast]
    decide
  · exact hsizes _ hdata

/-- The server with an embedded document on a socket that takes nothing. -/
def blocked : World := { World.embedded with send := fun _ _ => .wouldBlock }

/-- What is answered with an error page, and a request behind it. -/
def malformedAndRequest : { bytes : Bytes // bytes ≠ [] ∧ bytes.length ≤ readWriteBufferSize } :=
  ⟨malformed.val ++ ascii "GET / HTTP/1.1\r\n\r\n", by decide +kernel⟩

/-- A request behind the one that is answered with an error page has its own answer refused, which closes
the connection before the error page is sent. -/
theorem not_graceful_of_request :
    ∃ c, run blocked [.readable (.data malformedAndRequest)] fresh = .ok c ∧
      ¬ Graceful blocked [.readable (.data malformedAndRequest)] c := by
  have hrun : (do
      let c ← run blocked [.readable (.data malformedAndRequest)] fresh
      return decide (c.out.closeOnEmpty = true ∧ c.out.shutdown = true ∧
        (∀ event ∈ c.out.log, Output.isFailure event = false) ∧ c.out.shutdownByUser = false ∧
        Output.accepted c.out.log ≠ Output.written c.out.log)) = (.ok true : Except Fault Bool) := by
    decide +kernel
  obtain ⟨c, hc, hrun⟩ := ok_of_bind_eq_ok hrun
  injection hrun with hrun
  obtain ⟨hmarked, hshutdown, hquiet, huser, hlost⟩ := of_decide_eq_true hrun
  refine ⟨c, hc, fun hgraceful => hlost ?_⟩
  refine hgraceful.completes hmarked hshutdown (fun data hdata => ?_) (by simp) huser
  cases hquiet _ hdata

/-- The same socket, with an interest in write events that cannot be given up. -/
def tethered : World := { congested with epollMod := fun _ wantWrite => wantWrite }

/-- Where the interest in write events cannot be given up, the connection stays open when its buffer has
been sent. -/
theorem not_graceful_of_unsubscribed :
    ∃ c, run tethered [.readable (.data malformed), .writable] fresh = .ok c ∧
      ¬ Graceful tethered [.readable (.data malformed), .writable] c := by
  have hrun : (do
      let c ← run tethered [.readable (.data malformed), .writable] fresh
      return decide (c.out.closeOnEmpty = true ∧ c.out.outBuf = [] ∧ c.closed = false))
      = (.ok true : Except Fault Bool) := by
    decide +kernel
  obtain ⟨c, hc, hrun⟩ := ok_of_bind_eq_ok hrun
  injection hrun with hrun
  obtain ⟨hmarked, hempty, hopen⟩ := of_decide_eq_true hrun
  refine ⟨c, hc, fun hgraceful => ?_⟩
  rw [hgraceful.closes hmarked hempty] at hopen
  cases hopen

end Seasocks.Connection
