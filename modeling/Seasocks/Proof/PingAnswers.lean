import Seasocks.Proof.InputLimit
import Seasocks.Proof.Pings

/-!
# Answers to pings

Without compression, the pongs among the frames a connection sends are the answers to the pings it has
taken, in their order, and each of them is sent before the next frame is taken.
-/

namespace Seasocks.Connection

open Program Relation WebSocketFrame HybiPacketDecoder

variable {w : World} {c : Connection}

/-! ### Before the first frame -/

/-- No frame has been taken, and none can be in this state. -/
structure Unframed (c : Connection) : Prop where
  state : c.state ≠ .handlingHybiWebSocket
  noError : c.out.hadSendError = false
  noFrame : ∀ entry ∈ c.calls, isFrame entry.call = false

/-- Without compression, no frame has been taken before the handshake, and since then the pings are
answered. -/
def Tracked (c : Connection) : Prop :=
  c.out.hadSendError = false ∧ (c.perMessageDeflate = false →
    (c.state ≠ .handlingHybiWebSocket → ∀ entry ∈ c.calls, isFrame entry.call = false) ∧
    (c.state = .handlingHybiWebSocket → ∃ handler base,
      ⟨.onConnect handler, base⟩ ∈ c.calls ∧ Answering base [] c))

theorem Unframed.tracked (h : Unframed c) : Tracked c :=
  ⟨h.noError, fun _ => ⟨fun _ => h.noFrame, fun hstate => absurd hstate h.state⟩⟩

/-- `inv` holds at the end, unless what has been done has no meaning. -/
def Holds {α : Type} (inv : Connection → Prop) (m : ConnM α) (c : Connection) : Prop :=
  Ends m c (fun _ c' => inv c') fun e c' => inv c' ∨ Faulted e c'

theorem Holds.mono {α : Type} {inv inv' : Connection → Prop} {m : ConnM α} (h : Holds inv m c)
    (himp : ∀ c', inv c' → inv' c') : Holds inv' m c :=
  Ends.mono h (fun _ => himp) fun _ c' => Or.imp_left (himp c')

theorem Holds.bind {α β : Type} {inv inv' : Connection → Prop} {m : ConnM β} {f : β → ConnM α}
    (h : Holds inv m c) (himp : ∀ c', inv c' → inv' c') (hf : ∀ b c', inv c' → Holds inv' (f b) c') :
    Holds inv' (m >>= f) c := by
  rw [Holds, ends_bind]
  exact Ends.mono h hf fun _ c' => Or.imp_left (himp c')

/-- What every event that finds `cond` preserves, a run preserves. -/
theorem run_holds {cond : Event → Connection → Prop} {inv : Connection → Prop}
    (hstep : ∀ event c, inv c → cond event c → Holds inv (step w event) c)
    {events : List Event} {c' : Connection} (h : run w events c = .ok c') (hc : inv c)
    (hcond : Throughout w cond events c) : inv c' := by
  induction events generalizing c with
  | nil =>
      injection h with h
      exact h ▸ hc
  | cons event events ih =>
      have hends := hstep event c hc (hcond [] event events c rfl rfl)
      unfold Holds Ends at hends
      rw [run] at h
      cases hrun : (step w event).run c with
      | ok result c₁ =>
          rw [hrun] at hends h
          exact ih h hends (hcond.tail hrun)
      | error e c₁ =>
          rw [hrun] at hends h
          cases e with
          | fault f => cases h
          | exception e =>
              have hc₁ : inv c₁ := by
                rcases hends with hc₁ | ⟨f, hfault⟩
                · exact hc₁
                · cases hfault
              refine ih h hc₁ fun before event' after c'' hsplit hbefore => ?_
              refine hcond (event :: before) event' after c'' (by rw [hsplit, List.cons_append]) ?_
              rw [run, hrun]
              exact hbefore

theorem noError_of_opSteps {o o' : Output} (h : ReflTransGen (Output.OpStep w) o o')
    (hnoError : o.hadSendError = false) : o'.hadSendError = false :=
  invariant_of_steps (fun o => o.hadSendError = false)
    (fun _ _ hclear hstep => Output.OpStep.noError hstep hclear) h hnoError

theorem Unframed.record {call : Call} (h : Unframed c) (hcall : isFrame call = false) :
    Unframed { c with calls := c.calls ++ [⟨call, c.out⟩] } := by
  refine ⟨h.state, h.noError, fun entry hentry => ?_⟩
  rcases List.mem_append.mp hentry with hentry | hentry
  · exact h.noFrame entry hentry
  · rw [List.mem_singleton.mp hentry]
    exact hcall

theorem Unframed.sends {c' : Connection} (h : Unframed c) (hsends : Sends w c c') : Unframed c' := by
  obtain ⟨out, calls, rfl, hout, hcalls⟩ := hsends.frame
  refine ⟨h.state, noError_of_opSteps hout h.noError, fun entry hentry => ?_⟩
  rcases List.mem_append.mp hentry with hentry | hentry
  · exact h.noFrame entry hentry
  · obtain ⟨input, hinput⟩ := hcalls entry hentry
    rw [hinput]
    rfl

theorem Unframed.write {c' : Connection} (h : Unframed c) (hstep : WriteStep w c c') : Unframed c' := by
  cases hstep with
  | send hsend => exact h.sends (ReflTransGen.single hsend)
  | encoding | chunk => exact ⟨h.state, h.noError, h.noFrame⟩
  | headers | body | finish => exact ⟨by simp, h.noError, h.noFrame⟩

theorem Thrown.unframed {e : Exn} {c' : Connection} (hthrown : Thrown e c c') (h : Unframed c) : Unframed c' := by
  cases hthrown with
  | fault f => exact h
  | range e path hstate hrequest hcalls hrange => exact h.record rfl

theorem unframed_of_writes {α : Type} {m : ConnM α} (hc : Unframed c) (hwrites : Steps (WriteStep w) Thrown m c) :
    Holds Unframed m c := by
  have written : ∀ {c'}, Writes w c c' → Unframed c' := fun hsteps =>
    invariant_of_steps Unframed (fun _ _ => Unframed.write) hsteps hc
  refine Ends.mono hwrites (fun _ c' => written) ?_
  rintro e c' ⟨c₁, hsteps, hlast⟩
  exact Or.inl (hlast.unframed (written hsteps))

/-! ### Requests -/

theorem sendStaticData_unframed (hc : Unframed c) : Holds Unframed (sendStaticData w) c := by
  rw [Holds, sendStaticData, ends_bind, ends_get]
  dsimp only
  cases (trimQuery (w.staticPath ++ c.getRequestUri)).getLast? with
  | none => exact ends_fault.mpr (Or.inr ⟨_, rfl⟩)
  | some last =>
      dsimp only
      generalize (if last = 47 then _ else _ : Bytes) = path
      rw [Connection.record, ends_bind, ends_modify]
      have hopened : ∀ opened, Unframed { c with calls := c.calls ++ [⟨.openFile path opened, c.out⟩] } :=
        fun opened => hc.record rfl
      cases w.openFile c.calls path with
      | none => exact unframed_of_writes (hopened _) (send404_writes _)
      | some file =>
          dsimp only
          generalize (if c.getHeader (ascii "Range") = [] then _ else _
            : Except LogicError (Option (List Range))) = parsed
          rcases parsed with e | - | ranges
          · exact Or.inl (hopened _)
          · exact unframed_of_writes (hopened _) (sendError_writes _ _ _)
          · refine unframed_of_writes (hopened _) (buffers_bind_writes (Output.sendFile_runs _ _ _) ?_)
            intro result out
            cases result with
            | ok sent => exact Steps.pure _
            | error f => exact fault_steps

theorem onConnect_answering (handler : HandlerId) (hc : Unframed c)
    (hstate : c.state ≠ .handlingHixieWebSocket) (hplain : c.perMessageDeflate = false) :
    Ends (onConnect w handler) c
      (fun _ c' => ⟨.onConnect handler, c.out⟩ ∈ c'.calls ∧ Answering c.out [] c') fun _ _ => False := by
  refine (callHandler_chatter _ _ hstate hplain).mono (fun _ c' hc' => ⟨?_, ?_⟩) fun _ _ => id
  · rw [hc'.1]
    exact List.mem_append_right _ List.mem_cons_self
  · have hunframed : Unframed { c with calls := c.calls ++ [⟨.onConnect handler, c.out⟩] } := hc.record rfl
    have hstart : Answering c.out []
        { c with calls := c.calls ++ [⟨.onConnect handler, c.out⟩] } := by
      refine ⟨hplain, hc.noError, ⟨[], ?_, fun _ => ⟨[], (List.append_nil _).symm, rfl⟩⟩, ?_⟩
      · exact pings_eq_nil hunframed.noFrame
      · intro taken entry rest hcalls hframe
        dsimp only at hcalls
        have hmem : entry ∈ c.calls ++ [⟨.onConnect handler, c.out⟩] := by
          rw [hcalls]
          exact List.mem_append_right _ List.mem_cons_self
        rw [hunframed.noFrame entry hmem] at hframe
        cases hframe
    exact hstart.chatter hc'.1 hc'.2

/-- The handshake is where frames begin. -/
theorem handleHybiHandshake_tracked {webSocketVersion : Int} {webSocketKey : Bytes}
    {handler : HandlerId} (hc : Unframed c) (hstate : c.state = .readingHeaders)
    (hhandler : c.webSocketHandler = some handler) :
    Holds Tracked (handleHybiHandshake w webSocketVersion webSocketKey) c := by
  rw [Holds, handleHybiHandshake, ends_ite]
  refine ⟨fun _ => (unframed_of_writes hc (sendError_writes _ _ _)).mono fun _ => Unframed.tracked, fun _ => ?_⟩
  rw [ends_bind, theRequest, ends_bind, ends_get]
  cases c.request with
  | none => exact ends_fault.mpr (Or.inr ⟨_, rfl⟩)
  | some request =>
      rw [ends_pure, ends_bind, ends_get, ends_bind, ends_liftOut]
      refine (Output.hybiHandshake_runs _ _ _ _ c.out).mono fun _ base hbase => ?_
      have hsteps : ReflTransGen (Output.OpStep w) c.out base :=
        ReflTransGen.mono (fun _ _ => Output.BufferStep.op) _ _ hbase
      have hnoError := noError_of_opSteps hsteps hc.noError
      rw [hhandler]
      dsimp only
      rw [ends_bind]
      cases hplain : c.perMessageDeflate with
      | true =>
          refine (callHandler_ends _ _ _).mono (fun _ c₁ hsends => ?_) fun _ _ => False.elim
          obtain ⟨out, calls, rfl, hout, -⟩ := hsends.frame
          simp only [setState, ends_bind, ends_modify, ends_pure]
          exact ⟨noError_of_opSteps hout hnoError, fun h => by cases h⟩
      | false =>
          have hunframed : ∀ c₁ : Connection, c₁.state = c.state → c₁.out = base → c₁.calls = c.calls →
              Unframed c₁ := by
            rintro c₁ hsame hout hcalls
            refine ⟨hsame ▸ hc.state, hout ▸ hnoError, hcalls ▸ hc.noFrame⟩
          have hconnect := fun c₁ hsame hout hcalls =>
            onConnect_answering (w := w) handler (hunframed c₁ hsame hout hcalls)
          refine (hconnect _ ?_ ?_ ?_ ?_ ?_).mono ?_ fun _ _ => False.elim
          · rfl
          · rfl
          · rfl
          · simp [hstate]
          · rfl
          rintro - c₁ ⟨hmem, hanswering⟩
          simp only [setState, ends_bind, ends_modify, ends_pure]
          refine ⟨hanswering.noError, fun _ => ⟨fun h => absurd rfl h, fun _ => ⟨handler, base, hmem, ?_⟩⟩⟩
          exact ⟨hanswering.plain, hanswering.noError, hanswering.replied, hanswering.earlier⟩

theorem handleUpgrade_tracked (request : PageRequest) (hc : Unframed c) (hstate : c.state = .readingHeaders) :
    Holds Tracked (handleUpgrade w request) c := by
  have hunframed : Unframed { c with webSocketHandler := w.getWebSocketHandler request.requestUri } :=
    ⟨hc.state, hc.noError, hc.noFrame⟩
  rw [Holds, handleUpgrade, ends_bind, ends_modify]
  cases stoi (request.getHeader (ascii "Sec-WebSocket-Version")) with
  | error e => exact (unframed_of_writes hunframed (sendError_writes _ _ _)).mono fun _ => Unframed.tracked
  | ok version =>
      dsimp only
      rw [ends_ite, ends_ite]
      refine ⟨fun _ => (unframed_of_writes hunframed (send404_writes _)).mono fun _ => Unframed.tracked,
        fun hsome => ⟨fun _ => ?_, fun _ => ?_⟩⟩
      · simp only [setState, ends_bind, ends_modify, ends_pure]
        exact Unframed.tracked ⟨by simp, hc.noError, hc.noFrame⟩
      · obtain ⟨handler, hhandler⟩ := Option.ne_none_iff_exists'.mp (mt Option.isNone_iff_eq_none.mpr hsome)
        exact handleHybiHandshake_tracked hunframed hstate hhandler

theorem handlePageRequest_tracked (hc : Unframed c) (hstate : c.state = .readingHeaders) :
    Holds Tracked (handlePageRequest w) c := by
  rw [Holds, handlePageRequest, ends_bind, theRequest, ends_bind, ends_get]
  cases c.request with
  | none => exact ends_fault.mpr (Or.inr ⟨_, rfl⟩)
  | some request =>
      rw [ends_pure, ends_bind, ends_get]
      dsimp only
      rw [Connection.record, ends_bind, ends_modify]
      have hunframed : Unframed { c with calls := c.calls ++ [⟨.handle request, c.out⟩] } := hc.record rfl
      cases w.handle c.calls request with
      | throws | throwsUnknown =>
          exact (unframed_of_writes hunframed (sendError_writes _ _ _)).mono fun _ => Unframed.tracked
      | response response =>
          dsimp only [sendResponse]
          rw [handleResponse, ends_bind, ends_get, ends_ite]
          refine ⟨fun _ => ends_fault.mpr (Or.inr ⟨_, rfl⟩), fun _ => ?_⟩
          rw [ends_bind, ends_modify]
          have hwrites : ∀ c₁ : Connection, Unframed c₁ → Holds Unframed (do
              forM response.calls (writerCall w)
              return true) c₁ := fun c₁ hc₁ =>
            unframed_of_writes hc₁ ((Steps.forM writerCall_writes _).bind fun _ _ _ => Steps.pure _)
          refine (hwrites _ ?_).mono fun _ => Unframed.tracked
          exact ⟨by simp, hc.noError, hunframed.noFrame⟩
      | unhandled =>
          dsimp only
          rw [ends_ite]
          refine ⟨fun _ => handleUpgrade_tracked request hunframed hstate, fun _ => ?_⟩
          exact (sendStaticData_unframed hunframed).mono fun _ => Unframed.tracked

theorem processRequest_tracked (verb : Verb) (requestUri : Bytes) (headers : HeaderMap) (hc : Unframed c)
    (hstate : c.state = .readingHeaders) :
    Holds Tracked (processRequest w verb requestUri headers) c := by
  have hunframed : Unframed { c with request := some (PageRequest.create requestUri verb headers) } :=
    ⟨hc.state, hc.noError, hc.noFrame⟩
  unfold Holds processRequest
  rw [ends_bind, ends_modify]
  split
  · exact (unframed_of_writes hunframed (sendData_writes _ _ _)).mono fun _ => Unframed.tracked
  · have hwrites : ∀ size c₁, Steps (WriteStep w) Thrown
        (liftOut (Output.sendHeader w (getContentType requestUri) size)) c₁ := fun size =>
      buffers_writes (Output.bufferContentHeaders_runs _ size)
    exact (unframed_of_writes hunframed (hwrites _ _)).mono fun _ => Unframed.tracked
  · rw [ends_ite, ends_ite]
    refine ⟨fun _ => (unframed_of_writes hunframed (sendError_writes _ _ _)).mono fun _ => Unframed.tracked,
      fun _ => ⟨fun _ => handlePageRequest_tracked hunframed hstate, fun _ => ?_⟩⟩
    simp only [setState, ends_bind, ends_modify, ends_pure]
    exact Unframed.tracked ⟨by simp, hc.noError, hc.noFrame⟩

theorem processParsed_tracked (verb : Verb) (requestUri : Bytes) (headers : HeaderMap) (hc : Unframed c)
    (hstate : c.state = .readingHeaders) :
    Holds Tracked (processParsed w verb requestUri headers) c := by
  rw [Holds, processParsed, ends_ite, ends_ite]
  refine ⟨fun _ => ⟨fun _ => ?_, fun _ => ?_⟩, fun _ => processRequest_tracked _ _ _ hc hstate⟩
  · exact (unframed_of_writes hc (sendError_writes _ _ _)).mono fun _ => Unframed.tracked
  · have hunframed : Unframed { c with webSocketHandler := w.getWebSocketHandler requestUri } :=
      ⟨hc.state, hc.noError, hc.noFrame⟩
    rw [ends_bind, ends_modify, ends_ite]
    refine ⟨fun _ => (unframed_of_writes hunframed (send404_writes _)).mono fun _ => Unframed.tracked, fun _ => ?_⟩
    split_ifs
    · rw [ends_bind]
      have hinitialised : ∀ c₁ : Connection, Unframed c₁ → c₁.state = .readingHeaders →
          Ends (parsePerMessageDeflateHeader (headers.get (ascii "Sec-WebSocket-Extensions"))) c₁
            (fun _ c₂ => Unframed c₂ ∧ c₂.state = .readingHeaders) fun _ _ => False := by
        intro c₁ hc₁ hstate₁
        refine ends_forM ?_ ⟨hc₁, hstate₁⟩
        rintro extField - c₂ ⟨hc₂, hstate₂⟩
        rw [ends_ite]
        refine ⟨fun _ => ?_, fun _ => ⟨hc₂, hstate₂⟩⟩
        rw [ends_bind, ends_modify]
        have hflagged : Unframed { c₂ with perMessageDeflate := true } :=
          ⟨hc₂.state, hc₂.noError, hc₂.noFrame⟩
        exact ⟨hflagged.record rfl, hstate₂⟩
      refine (hinitialised _ hunframed hstate).mono (fun _ c₂ hc₂ => ?_) fun _ _ => False.elim
      exact processRequest_tracked _ _ _ hc₂.1 hc₂.2
    · exact processRequest_tracked _ _ _ hunframed hstate

theorem processHeaders_tracked (last : Nat) (hc : Unframed c) (hstate : c.state = .readingHeaders) :
    Holds Tracked (processHeaders w last) c := by
  have hunframed : ∀ inBuf, Unframed { c with inBuf := inBuf } := fun _ => ⟨hc.state, hc.noError, hc.noFrame⟩
  rw [Holds, processHeaders, ends_bind, ends_get]
  cases RequestParser.block.run (c.inBuf.take last) with
  | error stop memory =>
      cases stop with
      | fault f => exact ends_fault.mpr (Or.inr ⟨f, rfl⟩)
      | reject responseCode reason =>
          dsimp only
          rw [ends_bind, ends_set]
          exact (unframed_of_writes (hunframed _) (sendError_writes _ _ _)).mono fun _ => Unframed.tracked
  | ok parsed memory =>
      dsimp only
      rw [ends_bind, ends_set]
      exact processParsed_tracked _ _ _ (hunframed _) hstate

/-! ### Reads -/

theorem Answering.same {base : Output} {c' : Connection} (h : Answering base [] c)
    (hplain : c'.perMessageDeflate = c.perMessageDeflate) (hout : c'.out = c.out)
    (hcalls : c'.calls = c.calls) : Answering base [] c' where
  plain := hplain.trans h.plain
  noError := hout ▸ h.noError
  replied := by
    rw [hcalls, hout]
    exact h.replied
  earlier := by
    rw [hcalls]
    exact h.earlier

theorem Tracked.same {c' : Connection} (h : Tracked c)
    (hplain : c'.perMessageDeflate = c.perMessageDeflate) (hout : c'.out = c.out)
    (hcalls : c'.calls = c.calls) (hstate : c'.state = c.state) : Tracked c' := by
  refine ⟨hout ▸ h.1, fun hplain' => ?_⟩
  rw [hstate, hcalls]
  obtain ⟨hother, hhybi⟩ := h.2 (hplain.symm.trans hplain')
  refine ⟨hother, fun hstate' => ?_⟩
  obtain ⟨handler, base, hmem, hanswering⟩ := hhybi hstate'
  exact ⟨handler, base, hmem, hanswering.same hplain hout hcalls⟩

theorem Tracked.chatter {c' : Connection} (h : Tracked c) (hframe : c' = { c with out := c'.out })
    (hchatter : Chatter c.out c'.out) : Tracked c' := by
  have hplain : c'.perMessageDeflate = c.perMessageDeflate := by rw [hframe]
  have hcalls : c'.calls = c.calls := by rw [hframe]
  have hstate : c'.state = c.state := by rw [hframe]
  refine ⟨hchatter.noError h.1, fun hplain' => ?_⟩
  rw [hstate, hcalls]
  obtain ⟨hother, hhybi⟩ := h.2 (hplain.symm.trans hplain')
  refine ⟨hother, fun hstate' => ?_⟩
  obtain ⟨handler, base, hmem, hanswering⟩ := hhybi hstate'
  exact ⟨handler, base, hmem, hanswering.chatter hframe hchatter⟩

theorem Tracked.record {call : Call} (h : Tracked c) (hcall : isFrame call = false) :
    Tracked { c with calls := c.calls ++ [⟨call, c.out⟩] } := by
  refine ⟨h.1, fun hplain => ⟨fun hnot => ?_, fun hstate => ?_⟩⟩
  · have hunframed : Unframed c := ⟨hnot, h.1, (h.2 hplain).1 hnot⟩
    exact (hunframed.record hcall).noFrame
  · obtain ⟨handler, base, hmem, hanswering⟩ := (h.2 hplain).2 hstate
    exact ⟨handler, base, List.mem_append_left _ hmem, hanswering.record hcall⟩

theorem closeInternal_tracked (h : Tracked c) :
    Ends closeInternal c (fun _ c' => Tracked c') fun _ _ => False :=
  (closeInternal_chatter c).mono (fun _ _ hc' => h.chatter hc'.1 hc'.2) fun _ _ => id

theorem handleHeaders_tracked (hc : Unframed c) (hstate : c.state = .readingHeaders) :
    Holds Tracked (handleHeaders w) c := by
  rw [Holds, handleHeaders, ends_bind, ends_get]
  cases find (crlf ++ crlf) c.inBuf with
  | none =>
      dsimp only
      rw [ends_ite, ends_bind]
      refine ⟨fun _ => ?_, fun _ => hc.tracked⟩
      exact (unframed_of_writes hc (sendError_writes _ _ _)).mono fun _ => Unframed.tracked
  | some i =>
      dsimp only
      rw [Connection.record, ends_bind, ends_modify]
      refine (processHeaders_tracked _ (hc.record rfl) hstate).bind (fun _ => id) fun accepted c' hc' => ?_
      rw [Holds, ends_ite]
      refine ⟨fun _ => ?_, fun _ => ?_⟩
      · simp only [ends_bind, ends_modify, ends_pure]
        exact hc'.same rfl rfl rfl rfl
      · rw [ends_bind]
        exact (closeInternal_tracked hc').mono (fun _ _ => id) fun _ _ => False.elim

theorem handleBufferingPostData_tracked (hc : Unframed c) :
    Holds Tracked (handleBufferingPostData w) c := by
  rw [Holds, handleBufferingPostData, ends_bind, ends_get, ends_bind, theRequest, ends_bind, ends_get]
  cases c.request with
  | none => exact ends_fault.mpr (Or.inr ⟨_, rfl⟩)
  | some request =>
      rw [ends_pure]
      cases request.consumeContent c.inBuf with
      | none => exact hc.tracked
      | some consumed =>
          obtain ⟨request', inBuf⟩ := consumed
          dsimp only
          rw [Connection.record, ends_bind, ends_modify, ends_bind, ends_modify]
          have hunframed : Unframed { c with calls := c.calls ++ [⟨.content request'.content, c.out⟩] } :=
            hc.record rfl
          have hpage : ∀ c₁ : Connection, Unframed c₁ → c₁.state = .readingHeaders →
              Holds Tracked (do
                if !(← handlePageRequest w) then
                  closeInternal) c₁ := by
            intro c₁ hc₁ hstate₁
            refine (handlePageRequest_tracked hc₁ hstate₁).bind (fun _ => id) fun accepted c' hc' => ?_
            rw [Holds, ends_ite]
            refine ⟨fun _ => ?_, fun _ => hc'⟩
            exact (closeInternal_tracked hc').mono (fun _ _ => id) fun _ _ => False.elim
          exact hpage _ ⟨by simp, hunframed.noError, hunframed.noFrame⟩ rfl

theorem handleWebSocketKey3_tracked (hc : Unframed c) : Holds Tracked (handleWebSocketKey3 w) c := by
  rw [Holds, handleWebSocketKey3, ends_bind, ends_get, ends_ite]
  refine ⟨fun _ => ?_, fun _ => hc.tracked⟩
  rw [ends_bind, theRequest, ends_bind, ends_get]
  cases c.request with
  | none => exact ends_fault.mpr (Or.inr ⟨_, rfl⟩)
  | some request =>
      rw [ends_pure]
      dsimp only
      rw [Connection.record, ends_bind, ends_modify, ends_bind, ends_liftOut]
      refine (Output.hixieHandshake_runs _ _ _ c.out).mono fun _ out hout => ?_
      have hkey : Unframed { c with calls := c.calls ++ [⟨.key (c.inBuf.take 8), c.out⟩] } :=
        hc.record rfl
      have hsteps : ReflTransGen (Output.OpStep w) c.out out :=
        ReflTransGen.mono (fun _ _ => Output.BufferStep.op) _ _ hout
      have hnoError := noError_of_opSteps hsteps hc.noError
      rw [startHixie, ends_bind, ends_modify, ends_bind, ends_get]
      dsimp only
      have hstarted : ∀ c₁ : Connection, c₁.state = .handlingHixieWebSocket → c₁.out = out →
          c₁.calls = c.calls ++ [⟨.key (c.inBuf.take 8), c.out⟩] → Unframed c₁ := by
        intro c₁ hstate hsame hcalls
        exact ⟨by simp [hstate], hsame ▸ hnoError, hcalls ▸ hkey.noFrame⟩
      cases c.webSocketHandler with
      | none => exact (hstarted _ rfl rfl rfl).tracked
      | some handler =>
          refine (callHandler_ends _ _ _).mono (fun _ c' hsends => ?_) fun _ _ => False.elim
          refine Unframed.tracked (Unframed.sends (Unframed.record ?_ rfl) hsends)
          exact hstarted _ rfl rfl rfl

/-- Only a Hybi connection takes frames. -/
theorem Move.noFrame {c' : Connection} (h : Move w c c') (hstate : c.state ≠ .handlingHybiWebSocket)
    (hc : ∀ entry ∈ c.calls, isFrame entry.call = false) :
    ∀ entry ∈ c'.calls, isFrame entry.call = false := by
  have recorded : ∀ {call out}, isFrame call = false →
      ∀ entry ∈ c.calls ++ [⟨call, out⟩], isFrame entry.call = false := by
    intro call out hcall entry hentry
    rcases List.mem_append.mp hentry with hentry | hentry
    · exact hc entry hentry
    · rw [List.mem_singleton.mp hentry]
      exact hcall
  have sent : ∀ {c₁ c₂ : Connection}, Sends w c₁ c₂ →
      (∀ entry ∈ c₁.calls, isFrame entry.call = false) →
      ∀ entry ∈ c₂.calls, isFrame entry.call = false := by
    intro c₁ c₂ hsends hc₁ entry hentry
    obtain ⟨out, calls, rfl, -, hcalls⟩ := hsends.frame
    rcases List.mem_append.mp hentry with hentry | hentry
    · exact hc₁ entry hentry
    · obtain ⟨input, hinput⟩ := hcalls entry hentry
      rw [hinput]
      rfl
  cases h with
  | serve hserve =>
      cases hserve with
      | answer hanswer =>
          cases hanswer with
          | write hwrite =>
              cases hwrite with
              | send hsend => exact sent (ReflTransGen.single hsend) hc
              | _ => exact hc
          | handle | openFile => exact recorded rfl
          | setHandler | respond | awaitKey => exact hc
          | connect hreading hhandler hverb hcalls hout hsends =>
              have hsent := sent hsends (recorded rfl)
              exact hsent
      | initialise => exact recorded rfl
      | create | buffer => exact hc
  | headers | content | key | connect | message | inflate | cancel => exact recorded rfl
  | overwrite | drop | connectNobody | receive | enlarge | vanish => exact hc
  | frame frame hhybi => exact absurd hhybi hstate
  | data hwebSocket hhandler htaken hcall =>
      obtain ⟨message, rfl | rfl⟩ := hcall <;> exact recorded rfl
  | disconnect halive hresponse hhandler hsends hout =>
      have hsent := sent hsends (recorded rfl)
      exact hsent

theorem handleHixieWebSocket_tracked (hc : Unframed c) (hstate : c.state = .handlingHixieWebSocket) :
    Holds Tracked (handleHixieWebSocket w) c := by
  have taken : ∀ c₁ c₂ : Connection, c₁.state = .handlingHixieWebSocket ∧ Unframed c₁ → Take w c₁ c₂ →
      c₂.state = .handlingHixieWebSocket ∧ Unframed c₂ := by
    rintro c₁ c₂ ⟨hstate₁, hc₁⟩ ⟨hmove, hattached⟩
    have hstate₂ := (hmove.webSocket (Or.inl hstate₁)).trans hstate₁
    refine ⟨hstate₂, by simp [hstate₂], ?_, hmove.noFrame hc₁.state hc₁.noFrame⟩
    rcases hmove.out_steps with hsteps | ⟨hgone, -⟩
    · exact noError_of_opSteps hsteps hc₁.noError
    · exact absurd hattached.1 hgone
  have took : ∀ {c'}, ReflTransGen (Take w) c c' → Unframed c' := fun htakes =>
    (invariant_of_steps (fun c₁ => c₁.state = .handlingHixieWebSocket ∧ Unframed c₁) taken htakes
      ⟨hstate, hc⟩).2
  refine Ends.mono (handleHixieWebSocket_takes hstate) (fun _ c' htakes => (took htakes).tracked) ?_
  rintro e c' ⟨c₁, htakes, hlast⟩
  exact Or.inl (hlast.unframed (took htakes)).tracked

theorem closeIfTooLong_tracked (h : Tracked c) :
    Ends closeIfTooLong c (fun _ c' => Tracked c') fun _ _ => False := by
  rw [closeIfTooLong, ends_bind, ends_get, ends_ite]
  exact ⟨fun _ => closeInternal_tracked h, fun _ => h⟩

/-- Whatever frames a read completes, the pings among them are answered in turn. -/
theorem handleHybiWebSocket_tracked (h : Tracked c) (hstate : c.state = .handlingHybiWebSocket)
    (hplain : c.perMessageDeflate = false) : Holds Tracked (handleHybiWebSocket w) c := by
  obtain ⟨handler, base, hmem, hanswering⟩ := (h.2 hplain).2 hstate
  have hgrow : Ends (hybiLoop w c.inBuf (c.inBuf.length + 1) 0) c (fun _ c' => c.calls <+: c'.calls)
      fun _ _ => True := by
    refine Ends.mono (hybiLoop_takes _ _ _ hstate) (fun _ c' htakes => ?_) fun _ _ _ => trivial
    exact invariant_of_steps (fun c' => c.calls <+: c'.calls)
      (fun _ _ hgrows hstep => hgrows.trans hstep.1.calls_grow) htakes List.prefix_rfl
  rw [Holds, handleHybiWebSocket, ends_bind, ends_get, ends_ite]
  refine ⟨fun _ => ?_, fun _ => h⟩
  rw [ends_bind]
  refine ((hybiLoop_settles _ _ _ (by simp [hstate]) hanswering).and hgrow).mono ?_
    fun _ _ hends => Or.inr hends.1
  rintro result c' ⟨⟨hsame, hanswering'⟩, hcalls⟩
  have htracked : Tracked c' := by
    refine ⟨hanswering'.noError, fun _ => ⟨fun hnot => ?_, fun _ => ?_⟩⟩
    · exact absurd (hsame.trans hstate) hnot
    · exact ⟨handler, base, hcalls.subset hmem, hanswering'⟩
  cases result with
  | none => exact htracked
  | some numBytesDecoded =>
      dsimp only
      rw [ends_bind, ends_modify]
      refine (closeIfTooLong_tracked ?_).mono (fun _ _ => id) fun _ _ => False.elim
      exact htracked.same rfl rfl rfl rfl

/-! ### With compression -/

theorem Sends.deflate_eq {c c' : Connection} (h : Sends w c c') :
    c'.perMessageDeflate = c.perMessageDeflate := by
  obtain ⟨out, calls, rfl, -⟩ := h.frame
  rfl

/-- Compression stays negotiated. -/
theorem Move.deflate {c' : Connection} (h : Move w c c') (hdeflate : c.perMessageDeflate = true) :
    c'.perMessageDeflate = true := by
  cases h with
  | serve hserve =>
      cases hserve with
      | answer hanswer =>
          cases hanswer with
          | write hwrite =>
              cases hwrite with
              | send hsend => exact (Sends.deflate_eq (ReflTransGen.single hsend)).trans hdeflate
              | _ => exact hdeflate
          | connect hreading hhandler hverb hcalls hout hsends =>
              have hsame := hsends.deflate_eq
              exact hsame.trans hdeflate
          | _ => exact hdeflate
      | initialise => rfl
      | create | buffer => exact hdeflate
  | disconnect halive hresponse hhandler hsends hout =>
      have hsame := hsends.deflate_eq
      exact hsame.trans hdeflate
  | _ => exact hdeflate

theorem tracked_of_deflate {α : Type} {m : ConnM α} (hsteps : Steps (Take w) Thrown m c)
    (hnoError : c.out.hadSendError = false) (hdeflate : c.perMessageDeflate = true) :
    Holds Tracked m c := by
  have kept : ∀ c₁ c₂ : Connection, c₁.out.hadSendError = false ∧ c₁.perMessageDeflate = true →
      Take w c₁ c₂ → c₂.out.hadSendError = false ∧ c₂.perMessageDeflate = true := by
    rintro c₁ c₂ ⟨hnoError₁, hdeflate₁⟩ ⟨hmove, hattached⟩
    refine ⟨?_, hmove.deflate hdeflate₁⟩
    rcases hmove.out_steps with hout | ⟨hgone, -⟩
    · exact noError_of_opSteps hout hnoError₁
    · exact absurd hattached.1 hgone
  have took : ∀ {c'}, ReflTransGen (Take w) c c' →
      c'.out.hadSendError = false ∧ c'.perMessageDeflate = true := fun htakes =>
    invariant_of_steps (fun c₁ => c₁.out.hadSendError = false ∧ c₁.perMessageDeflate = true) kept
      htakes ⟨hnoError, hdeflate⟩
  have tracked : ∀ {c' : Connection}, c'.out.hadSendError = false ∧ c'.perMessageDeflate = true →
      Tracked c' := fun {c'} hc' => ⟨hc'.1, fun hplain => by rw [hc'.2] at hplain; cases hplain⟩
  refine Ends.mono hsteps (fun _ _ htakes => tracked (took htakes)) ?_
  rintro e c' ⟨c₁, htakes, hlast⟩
  have htook := took htakes
  cases hlast with
  | fault f => exact Or.inl (tracked htook)
  | range e path hstate hrequest hcalls hrange => exact Or.inl (tracked htook)

/-! ### Events -/

theorem Tracked.unframed (h : Tracked c) (hplain : c.perMessageDeflate = false)
    (hstate : c.state ≠ .handlingHybiWebSocket) : Unframed c :=
  ⟨hstate, h.1, (h.2 hplain).1 hstate⟩

theorem handleNewDataFrom_tracked (fuel : Nat) (h : Tracked c) :
    Holds Tracked (handleNewDataFrom w fuel) c := by
  induction fuel generalizing c with
  | zero => exact h
  | succ fuel ih =>
      cases hplain : c.perMessageDeflate with
      | true => exact tracked_of_deflate (handleNewDataFrom_takes _ _) h.1 hplain
      | false =>
          rw [Holds, handleNewDataFrom, ends_bind, ends_get]
          cases hstate : c.state with
          | readingHeaders =>
              have hunframed := h.unframed hplain (by simp [hstate])
              refine (handleHeaders_tracked hunframed hstate).bind (fun _ => id) fun goOn c' hc' => ?_
              rw [Holds, ends_ite]
              exact ⟨fun _ => ih hc', fun _ => hc'⟩
          | readingWebSocketKey3 => exact handleWebSocketKey3_tracked (h.unframed hplain (by simp [hstate]))
          | handlingHixieWebSocket =>
              exact handleHixieWebSocket_tracked (h.unframed hplain (by simp [hstate])) hstate
          | handlingHybiWebSocket => exact handleHybiWebSocket_tracked h hstate hplain
          | bufferingPostData => exact handleBufferingPostData_tracked (h.unframed hplain (by simp [hstate]))
          | awaitingResponseBegin | sendingResponseHeaders | sendingResponseBody => exact h
          | invalid => exact ends_fault.mpr (Or.inr ⟨_, rfl⟩)

theorem handleDataReadyForRead_tracked (result : ReadResult) (h : Tracked c) :
    Holds Tracked (handleDataReadyForRead w result) c := by
  rw [Holds, handleDataReadyForRead, ends_bind, ends_get, ends_ite]
  refine ⟨fun _ => ?_, fun _ => h⟩
  have hread : ∀ c₁ : Connection, c₁.perMessageDeflate = c.perMessageDeflate → c₁.out = c.out →
      c₁.calls = c.calls → c₁.state = c.state → Tracked c₁ := fun c₁ => h.same
  cases result with
  | error => exact hread _ rfl rfl rfl rfl
  | endOfStream =>
      dsimp only
      rw [ends_bind, ends_set]
      have hclose := fun c₁ hplain hout hcalls hstate =>
        closeInternal_tracked (hread c₁ hplain hout hcalls hstate)
      exact (hclose _ (by rfl) (by rfl) (by rfl) (by rfl)).mono (fun _ _ => id) fun _ _ => False.elim
  | data received =>
      dsimp only
      rw [ends_bind, ends_set, handleNewData, ends_bind, ends_get]
      exact handleNewDataFrom_tracked _ (hread _ rfl rfl rfl rfl)

/-- Sending without frames, or with compression. -/
theorem Tracked.sends {c' : Connection} (h : Tracked c)
    (hnot : ¬ (c.state = .handlingHybiWebSocket ∧ c.perMessageDeflate = false))
    (hsends : Sends w c c') : Tracked c' := by
  cases hplain : c.perMessageDeflate with
  | true =>
      obtain ⟨out, calls, rfl, hout, -⟩ := hsends.frame
      refine ⟨noError_of_opSteps hout h.1, fun hplain' => ?_⟩
      cases hplain.symm.trans hplain'
  | false =>
      have hunframed := h.unframed hplain fun hstate => hnot ⟨hstate, hplain⟩
      exact (hunframed.sends hsends).tracked

theorem callHandler_tracked {call : Call} (react : List Entry → List WsCall) (h : Tracked c)
    (hcall : isFrame call = false) : Holds Tracked (callHandler w call react) c := by
  by_cases hhybi : c.state = .handlingHybiWebSocket ∧ c.perMessageDeflate = false
  · obtain ⟨hstate, hplain⟩ := hhybi
    refine (callHandler_chatter call react (by simp [hstate]) hplain).mono (fun _ c' hc' => ?_)
      fun _ _ => False.elim
    exact (h.record hcall).chatter hc'.1 hc'.2
  · refine (callHandler_ends call react c).mono (fun _ c' hsends => ?_) fun _ _ => False.elim
    exact (h.record hcall).sends hhybi hsends

theorem closeFd_chatter (o : Output) : After closeFd o fun _ o' => Chatter o o' := by
  have hclosed : ∀ events, (∀ event ∈ events, event = .closeFd) →
      Chatter o { o with fd := false, log := o.log ++ events } := by
    intro events hevents
    refine ⟨[], rfl, events, rfl, fun hnoError => ⟨hnoError, fun _ => ?_⟩⟩
    have hnothing : Output.accepted events = [] := by
      rw [Output.accepted, List.flatMap_eq_nil_iff]
      intro event hevent
      rw [hevents event hevent]
      rfl
    simp [Output.emitted, Output.accepted_append, hnothing, wire]
  simp only [closeFd, Output.record, after_bind, after_get, after_ite, after_modify]
  refine ⟨fun _ => hclosed [.closeFd] (by simp), fun _ => ?_⟩
  have hnone := hclosed [] (by simp)
  rwa [List.append_nil] at hnone

theorem destroy_tracked (h : Tracked c) : Holds Tracked (destroy w) c := by
  have vanish : ∀ c₁ : Connection, Tracked c₁ → Holds Tracked (do
      liftOut closeFd
      modify fun c => { c with webSocketHandler := none, alive := false }) c₁ := by
    intro c₁ hc₁
    rw [Holds, ends_bind, ends_liftOut]
    refine (closeFd_chatter c₁.out).mono fun _ out hout => ?_
    have hclosed : Tracked { c₁ with out := out } := hc₁.chatter rfl hout
    exact hclosed.same rfl rfl rfl rfl
  have hcancelled : Holds Tracked cancelResponse c := by
    rw [Holds, cancelResponse, ends_bind, ends_get, ends_ite]
    refine ⟨fun _ => ?_, fun _ => h⟩
    rw [Connection.record, ends_bind, ends_modify, ends_modify]
    exact (h.record rfl).same rfl rfl rfl rfl
  rw [destroy]
  refine hcancelled.bind (fun _ => id) fun _ c₁ hc₁ => ?_
  rw [Holds, ends_bind, ends_get]
  cases c₁.webSocketHandler with
  | none => exact vanish c₁ hc₁
  | some handler =>
      exact (callHandler_tracked _ hc₁ rfl).bind (fun _ => id) fun _ c₂ hc₂ => vanish c₂ hc₂

theorem wsCall_tracked (call : WsCall) (h : Tracked c) : Holds Tracked (wsCall w call) c := by
  by_cases hhybi : c.state = .handlingHybiWebSocket ∧ c.perMessageDeflate = false
  · refine (wsCall_chatter call (by simp [hhybi.1]) hhybi.2).mono (fun _ c' hc' => ?_)
      fun _ _ => False.elim
    exact h.chatter hc'.1 hc'.2
  · refine (wsCall_sends call c).mono (fun _ c' hsends => ?_) fun _ _ => False.elim
    exact h.sends hhybi hsends

/-- Every event leaves the pings answered. -/
theorem step_tracked (event : Event) (h : Tracked c) : Holds Tracked (step w event) c := by
  rw [Holds, step, ends_bind, ends_get]
  cases event with
  | destroy =>
      dsimp only
      rw [ends_ite]
      exact ⟨fun _ => destroy_tracked h, fun _ => ends_fault.mpr (Or.inr ⟨_, rfl⟩)⟩
  | readable result =>
      dsimp only
      rw [ends_ite]
      exact ⟨fun _ => handleDataReadyForRead_tracked result h,
        fun _ => ends_fault.mpr (Or.inr ⟨_, rfl⟩)⟩
  | writable =>
      dsimp only
      rw [ends_ite]
      refine ⟨fun _ => ?_, fun _ => ends_fault.mpr (Or.inr ⟨_, rfl⟩)⟩
      rw [ends_liftOut]
      refine (Output.handleDataReadyForWrite_emitted.and
        (Output.handleDataReadyForWrite_runs (w := w) c.out)).mono fun _ out hout => ?_
      exact h.chatter rfl (chatter_of_steps hout.2 hout.1)
  | socket call =>
      dsimp only
      rw [ends_ite]
      exact ⟨fun _ => wsCall_tracked call h, fun _ => ends_fault.mpr (Or.inr ⟨_, rfl⟩)⟩
  | writer call =>
      dsimp only
      rw [ends_ite, ends_ite]
      refine ⟨fun _ => ⟨fun _ => ?_, fun _ => ends_fault.mpr (Or.inr ⟨_, rfl⟩)⟩, fun _ => h⟩
      by_cases hlegal : Legal c.state call
      · cases hplain : c.perMessageDeflate with
        | true =>
            have hserves := serves_of_answers (answers_of_writes (writerCall_writes (w := w) call c))
            exact tracked_of_deflate (hserves.mono fun _ _ => Take.serve) h.1 hplain
        | false =>
            have hstate : c.state ≠ .handlingHybiWebSocket := by
              intro hstate
              rw [hstate] at hlegal
              cases call <;> simp [Legal] at hlegal
            exact (unframed_of_writes (h.unframed hplain hstate) (writerCall_writes call c)).mono
              fun _ => Unframed.tracked
      · rw [ends_of_run_ok (writerCall_eq_of_illegal hlegal)]
        exact h

theorem run_tracked {events : List Event} {c' : Connection} (h : run w events c = .ok c')
    (hc : Tracked c) : Tracked c' := by
  have hstep : ∀ event c, Tracked c → True → Holds Tracked (step w event) c :=
    fun event _ hc _ => step_tracked event hc
  apply run_holds hstep h hc
  intro _ _ _ _ _ _
  trivial

/-- The pongs emitted since the handshake are the answers to the pings taken, at any time and before
every frame. -/
def PingsAnswered (c : Connection) : Prop :=
  ∃ handler base, ⟨.onConnect handler, base⟩ ∈ c.calls ∧ Ponged base (pings c.calls) c.out ∧
    ∀ taken entry rest, c.calls = taken ++ entry :: rest → isFrame entry.call = true →
      Ponged base (pings taken) entry.out

/-- **Answers to pings.** In every state of a run in which compression is not negotiated, all frames
emitted since the handshake are without reserved bits, and the pongs among them answer the pings taken,
each before the next frame is taken. -/
theorem run_pingsAnswered {events : List Event} (h : run w events fresh = .ok c)
    (hstate : c.state = .handlingHybiWebSocket) (hplain : c.perMessageDeflate = false) :
    PingsAnswered c := by
  have hfresh : Unframed fresh := ⟨by decide, rfl, fun entry hentry => by cases hentry⟩
  have htracked := run_tracked h hfresh.tracked
  obtain ⟨handler, base, hmem, hanswering⟩ := (htracked.2 hplain).2 hstate
  obtain ⟨paid, hpaid, hponged⟩ := hanswering.replied
  rw [List.append_nil] at hpaid
  exact ⟨handler, base, hmem, hpaid ▸ hponged, hanswering.earlier⟩

/-- A ping behind a handshake. -/
theorem run_pingsAnswered_ping :
    ∃ c, run World.chat
        [.readable (.data ⟨ascii "GET /chat HTTP/1.1\r\nConnection: Upgrade\r\nUpgrade: websocket\r\n"
          ++ ascii "Sec-WebSocket-Version: 13\r\n\r\n", by decide +kernel⟩),
          .readable (.data ⟨[0x89, 0x82, 0, 0, 0, 0, 104, 105], by decide⟩)] fresh = .ok c ∧
      pings c.calls = [[104, 105]] ∧ PingsAnswered c := by
  have hrun : (do
      let c ← run World.chat
        [.readable (.data ⟨ascii "GET /chat HTTP/1.1\r\nConnection: Upgrade\r\nUpgrade: websocket\r\n"
          ++ ascii "Sec-WebSocket-Version: 13\r\n\r\n", by decide +kernel⟩),
          .readable (.data ⟨[0x89, 0x82, 0, 0, 0, 0, 104, 105], by decide⟩)] fresh
      return decide (c.state = .handlingHybiWebSocket ∧ c.perMessageDeflate = false ∧
        pings c.calls = [[104, 105]])) = (.ok true : Except Fault Bool) := by
    decide +kernel
  obtain ⟨c, hc, hrun⟩ := ok_of_bind_eq_ok hrun
  injection hrun with hrun
  obtain ⟨hstate, hplain, hpings⟩ := of_decide_eq_true hrun
  exact ⟨c, hc, hpings, run_pingsAnswered hc hstate hplain⟩

theorem wire_first {messages : List Message} {first : UInt8} {rest : Bytes}
    (h : wire messages = first :: rest) : rsv1 first = false := by
  cases messages with
  | nil => cases h
  | cons message messages =>
      rw [wire, List.flatMap_cons, encode, List.cons_append] at h
      injection h with h
      rw [← h]
      cases message.opcode <;> decide

/-- The pong of a connection with compression has the first reserved bit set. -/
theorem not_pingsAnswered_of_deflate :
    ∃ c, run { World.chat with perMessageDeflateEnabled := true }
        [.readable (.data ⟨ascii "GET /chat HTTP/1.1\r\nConnection: Upgrade\r\nUpgrade: websocket\r\n"
          ++ ascii "Sec-WebSocket-Version: 13\r\nSec-WebSocket-Extensions: permessage-deflate\r\n\r\n",
          by decide +kernel⟩),
          .readable (.data ⟨[0x89, 0x82, 0, 0, 0, 0, 104, 105], by decide⟩)] fresh = .ok c ∧
      c.state = .handlingHybiWebSocket ∧ c.closing = false ∧ pings c.calls = [[104, 105]] ∧
      ¬ PingsAnswered c := by
  have hrun : (do
      let c ← run { World.chat with perMessageDeflateEnabled := true }
        [.readable (.data ⟨ascii "GET /chat HTTP/1.1\r\nConnection: Upgrade\r\nUpgrade: websocket\r\n"
          ++ ascii "Sec-WebSocket-Version: 13\r\nSec-WebSocket-Extensions: permessage-deflate\r\n\r\n",
          by decide +kernel⟩),
          .readable (.data ⟨[0x89, 0x82, 0, 0, 0, 0, 104, 105], by decide⟩)] fresh
      return decide (c.state = .handlingHybiWebSocket ∧ c.closing = false ∧
        pings c.calls = [[104, 105]] ∧ (∀ event ∈ c.out.log, Output.isFailure event = false) ∧
        ∀ entry ∈ c.calls, entry.call.callee ≠ none →
          Output.emitted c.out = Output.emitted entry.out ++ [0xca, 2, 104, 105]))
      = (.ok true : Except Fault Bool) := by
    decide +kernel
  obtain ⟨c, hc, hrun⟩ := ok_of_bind_eq_ok hrun
  injection hrun with hrun
  obtain ⟨hstate, hopen, hpings, hquiet, hemitted⟩ := of_decide_eq_true hrun
  refine ⟨c, hc, hstate, hopen, hpings, ?_⟩
  rintro ⟨handler, base, hmem, hponged, -⟩
  obtain ⟨messages, hmessages, -⟩ := hponged hquiet
  have hsame := hemitted _ hmem (Option.some_ne_none handler)
  rw [hmessages] at hsame
  exact absurd (wire_first (List.append_cancel_left hsame)) (by decide)

end Seasocks.Connection
