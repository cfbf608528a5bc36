import Seasocks.Library.Separators
import Seasocks.Proof.GracefulClose
import Seasocks.Proof.HeaderBlocks
import Seasocks.Proof.PingAnswers

/-!
# Endpoints

What `split` makes of a text that is not empty, and why the server may look at the first piece of a
request URI when it looks up an endpoint: the parser lets no empty URI through, and a connection keeps
the URI of its request.
-/

namespace Seasocks

open Program Relation Separators

/-! ### Pieces -/

theorem pieces_split {input : Bytes} (h : input ≠ []) (splitChar : UInt8) :
    Pieces splitChar input (split input splitChar) := by
  rw [split_eq_splitOn h]
  exact pieces_splitOn splitChar input

/-- Where a piece is empty: in front of a leading separator, behind a trailing one, and between two that
are adjacent. -/
structure EmptyPieces (splitChar : UInt8) (input : Bytes) (pieces : List Bytes) : Prop where
  leading : ∀ after, input = splitChar :: after → pieces.head? = some []
  trailing : ∀ before, input = before ++ [splitChar] → pieces.getLast? = some []
  adjacent : ∀ before after, input = before ++ splitChar :: splitChar :: after →
    pieces[before.count splitChar + 1]? = some []

theorem emptyPieces_of_pieces {splitChar : UInt8} {input : Bytes} {pieces : List Bytes}
    (h : Pieces splitChar input pieces) : EmptyPieces splitChar input pieces where
  leading := by
    rintro after rfl
    exact h.leading
  trailing := by
    rintro before rfl
    exact h.trailing
  adjacent := by
    rintro before after rfl
    exact h.adjacent

/-- `splits[0]` exists, is the URI up to its first `?`, and is what the endpoint is looked up under. -/
structure EndpointFound (w : World) (requestUri : Bytes) : Prop where
  valid : 0 < (split requestUri 63).length
  first : (split requestUri 63)[0] = requestUri.takeWhile (· != 63)
  handler : w.getWebSocketHandler requestUri =
    (w.webSocketHandlerMap.lookup (requestUri.takeWhile (· != 63))).bind (·.handler)
  crossOrigin : w.isCrossOriginAllowed requestUri =
    ((w.webSocketHandlerMap.lookup (requestUri.takeWhile (· != 63))).map (·.allowCrossOrigin)).getD false

theorem endpointFound_of_ne_nil (w : World) {requestUri : Bytes} (h : requestUri ≠ []) :
    EndpointFound w requestUri := by
  obtain ⟨rest, hrest⟩ := exists_splitOn_eq_cons 63 requestUri
  have hsplit := (split_eq_splitOn h 63).trans hrest
  have hentry : w.endpointEntry requestUri =
      w.webSocketHandlerMap.lookup (requestUri.takeWhile (· != 63)) := by
    rw [World.endpointEntry, hsplit]
  have hvalid : 0 < (split requestUri 63).length := by
    rw [hsplit]
    exact Nat.zero_lt_succ _
  refine ⟨hvalid, ?_, ?_, ?_⟩
  · simp only [hsplit, List.getElem_cons_zero]
  · rw [World.getWebSocketHandler, hentry]
  · rw [World.isCrossOriginAllowed, hentry]

namespace Connection

variable {w : World} {c : Connection}

/-! ### The URI of a request -/

/-- The request of the connection, if it has one, has a URI. -/
def Named (c : Connection) : Prop := ∀ request, c.request = some request → request.requestUri ≠ []

theorem Named.same {c' : Connection} (h : Named c) (hrequest : c'.request = c.request) : Named c' := by
  unfold Named
  rw [hrequest]
  exact h

theorem Sends.request_eq {c c' : Connection} (h : Sends w c c') : c'.request = c.request := by
  obtain ⟨out, calls, rfl, -⟩ := h.frame
  rfl

theorem Answer.request_eq {c' : Connection} (h : Answer w c c') : c'.request = c.request := by
  cases h with
  | write hwrite =>
      cases hwrite with
      | send hsend => exact Sends.request_eq (ReflTransGen.single hsend)
      | _ => rfl
  | connect hstate hhandler hverb hcalls hout hsends =>
      have hsent := hsends.request_eq
      exact hsent
  | _ => rfl

theorem Thrown.request_eq {e : Exn} {c' : Connection} (h : Thrown e c c') : c'.request = c.request := by
  cases h <;> rfl

theorem named_of_answers {α : Type} {m : ConnM α} (h : Steps (Answer w) Thrown m c) (hc : Named c) :
    Holds Named m c := by
  have hsteps : ∀ {c'}, ReflTransGen (Answer w) c c' → Named c' := fun hsteps =>
    invariant_of_steps Named (fun _ _ hnamed hstep => hnamed.same (Answer.request_eq hstep)) hsteps hc
  refine Ends.mono h (fun _ _ => hsteps) ?_
  rintro e c' ⟨c₁, h₁, hthrown⟩
  exact Or.inl ((hsteps h₁).same hthrown.request_eq)

/-- Once it is switched, a connection stays switched and keeps its request. -/
theorem Move.switched {c' : Connection} (h : Move w c c') (hstate : Switched c) :
    Switched c' ∧ c'.request = c.request := by
  have other : ∀ {state : State}, c.state = state → state ≠ .readingWebSocketKey3 →
      state ≠ .handlingHixieWebSocket → state ≠ .handlingHybiWebSocket → False := by
    rintro _ rfl hkey hhixie hhybi
    rcases hstate with h | h | h
    · exact hkey h
    · exact hhixie h
    · exact hhybi h
  have sent : ∀ {c₁ c₂ : Connection}, Sends w c₁ c₂ → Switched c₁ → Switched c₂ := by
    intro c₁ c₂ hsends hswitched
    unfold Switched IsWebSocket
    rw [hsends.state_eq]
    exact hswitched
  cases h with
  | serve hserve =>
      cases hserve with
      | answer hanswer =>
          cases hanswer with
          | write hwrite =>
              cases hwrite with
              | send hsend =>
                  have hsends := ReflTransGen.single hsend
                  exact ⟨sent hsends hstate, Sends.request_eq hsends⟩
              | encoding | chunk => exact ⟨hstate, rfl⟩
              | headers hresponding | body hresponding =>
                  exact (other hresponding (by decide) (by decide) (by decide)).elim
              | finish hsending =>
                  rcases hsending with h | h
                  · exact (other h (by decide) (by decide) (by decide)).elim
                  · exact (other h (by decide) (by decide) (by decide)).elim
          | setHandler | handle | openFile => exact ⟨hstate, rfl⟩
          | respond _ hreading | awaitKey hreading | connect hreading =>
              exact (other hreading (by decide) (by decide) (by decide)).elim
      | initialise => exact ⟨hstate, rfl⟩
      | create _ hreading | buffer hreading =>
          exact (other hreading (by decide) (by decide) (by decide)).elim
  | content hbuffering => exact (other hbuffering (by decide) (by decide) (by decide)).elim
  | connect | connectNobody => exact ⟨Or.inr (Or.inl rfl), rfl⟩
  | disconnect halive hresponse hhandler hsends hout =>
      have hsent := sent hsends hstate
      have hsame := hsends.request_eq
      exact ⟨hsent, hsame⟩
  | _ => exact ⟨hstate, rfl⟩

theorem named_of_takes {α : Type} {m : ConnM α} (h : Steps (Take w) Thrown m c) (hstate : Switched c)
    (hc : Named c) : Holds Named m c := by
  have hsteps : ∀ {c'}, ReflTransGen (Take w) c c' → Switched c' ∧ Named c' := fun hsteps =>
    invariant_of_steps (fun c => Switched c ∧ Named c)
      (fun _ _ hc₁ htake => by
        obtain ⟨hswitched, hsame⟩ := Move.switched htake.1 hc₁.1
        exact ⟨hswitched, hc₁.2.same hsame⟩) hsteps ⟨hstate, hc⟩
  refine Ends.mono h (fun _ _ htakes => (hsteps htakes).2) ?_
  rintro e c' ⟨c₁, htakes, hthrown⟩
  exact Or.inl ((hsteps htakes).2.same hthrown.request_eq)

/-! ### Reading a request -/

theorem processRequest_named {verb : Verb} {requestUri : Bytes} {headers : HeaderMap}
    (hstate : c.state = .readingHeaders) (htaken : JustTaken c.calls c.out) (huri : requestUri ≠ []) :
    Holds Named (processRequest w verb requestUri headers) c := by
  have hcreated : ∀ {c' : Connection},
      c'.request = some (PageRequest.create requestUri verb headers) → Named c' := by
    intro c' hrequest request hsome
    rw [hrequest] at hsome
    injection hsome with hsome
    rw [← hsome]
    exact huri
  unfold Holds
  simp only [processRequest, ends_bind, ends_modify]
  split
  · exact named_of_answers (answers_of_writes (sendData_writes (w := w) _ _ _)) (hcreated rfl)
  · have hruns := Output.bufferContentHeaders_runs (w := w)
    exact named_of_answers (answers_of_writes (buffers_writes (hruns _ _) _)) (hcreated rfl)
  · rw [ends_ite, ends_ite]
    refine ⟨fun _ => ?_, fun _ => ⟨fun _ => ?_, fun _ => ?_⟩⟩
    · exact named_of_answers (sendError_answers (w := w) _ _ _) (hcreated rfl)
    · exact named_of_answers (handlePageRequest_answers (w := w) hstate htaken) (hcreated rfl)
    · rw [setState, ends_bind, ends_modify]
      exact hcreated rfl

theorem processParsed_named {verb : Verb} {requestUri : Bytes} {headers : HeaderMap}
    (hstate : c.state = .readingHeaders) (htaken : JustTaken c.calls c.out) (huri : requestUri ≠ [])
    (hc : Named c) : Holds Named (processParsed w verb requestUri headers) c := by
  rcases processParsed_cases (w := w) htaken with ⟨-, -, hrun⟩ | ⟨-, -, -, hrun⟩ |
    ⟨c₁, hstate₁, -, htaken₁, -, hrun⟩
  · rw [Holds, Ends, hrun]
    exact named_of_answers (sendError_answers (w := w) _ _ c) hc
  · rw [Holds, Ends, hrun]
    exact named_of_answers (send404_answers (w := w) { c with webSocketHandler := none }) hc
  · rw [Holds, Ends, hrun]
    exact processRequest_named (w := w) (hstate₁.trans hstate) htaken₁ huri

theorem processHeaders_named (last : Nat) (hstate : c.state = .readingHeaders)
    (htaken : JustTaken c.calls c.out) (hc : Named c) : Holds Named (processHeaders w last) c := by
  rw [Holds, processHeaders, ends_bind, ends_get]
  have hblock := RequestParser.block_ends (c.inBuf.take last)
  cases hrun : RequestParser.block.run (c.inBuf.take last) with
  | ok parsed memory =>
      obtain ⟨verb, requestUri, headers⟩ := parsed
      rw [ends_of_run_ok hrun] at hblock
      dsimp only
      rw [ends_bind, ends_set]
      exact processParsed_named (w := w) (c := { c with inBuf := memory ++ c.inBuf.drop last })
        hstate htaken hblock.2.2.2 hc
  | error stop memory =>
      cases stop with
      | fault f => exact Or.inr ⟨f, rfl⟩
      | reject responseCode reason =>
          dsimp only
          rw [ends_bind, ends_set]
          exact named_of_answers (sendError_answers (w := w) responseCode reason
            { c with inBuf := memory ++ c.inBuf.drop last }) hc

theorem handleHeaders_named (hstate : c.state = .readingHeaders) (hc : Named c) :
    Holds Named (handleHeaders w) c := by
  rw [handleHeaders]
  unfold Holds
  rw [ends_bind, ends_get]
  cases find (crlf ++ crlf) c.inBuf with
  | none =>
      dsimp only
      rw [ends_ite]
      refine ⟨fun _ => ?_, fun _ => hc⟩
      have hsent := named_of_answers (sendError_answers (w := w) .notImplemented (ascii "Headers too big") c) hc
      rw [ends_bind]
      exact Ends.mono hsent (fun _ _ => id) fun _ _ => id
  | some i =>
      dsimp only
      rw [record, ends_bind, ends_modify, ends_bind]
      refine Ends.mono (processHeaders_named (w := w) (i + 2)
        (c := { c with calls := c.calls ++ [⟨.headers (c.inBuf.take (i + 4)), c.out⟩] })
        hstate (justTaken_concat rfl) hc) (fun accepted c₁ h₁ => ?_) fun _ _ => id
      rw [ends_ite]
      refine ⟨fun _ => h₁, fun _ => ?_⟩
      rw [ends_bind, closeInternal, ends_liftOut]
      exact After.of_forall fun _ _ => h₁

theorem handleBufferingPostData_named (hc : Named c) : Holds Named (handleBufferingPostData w) c := by
  rw [Holds, handleBufferingPostData, ends_bind, ends_get, theRequest, ends_bind, ends_bind, ends_get]
  cases hrequest : c.request with
  | none => exact Or.inr ⟨.badPointer, rfl⟩
  | some request =>
      rw [ends_pure]
      cases hconsume : request.consumeContent c.inBuf with
      | none => exact hc
      | some consumed =>
          obtain ⟨request', inBuf⟩ := consumed
          have huri : request'.requestUri = request.requestUri := by
            rw [PageRequest.consumeContent] at hconsume
            split_ifs at hconsume
            all_goals
              injection hconsume with hconsume
              rw [Prod.mk.injEq] at hconsume
              rw [← hconsume.1]
          dsimp only
          rw [record, ends_bind, ends_modify, ends_bind, ends_modify, ends_bind]
          have hnamed : ∀ {c₁ : Connection}, c₁.request = some request' → Named c₁ := by
            intro c₁ h₁ request'' hsome
            rw [h₁] at hsome
            injection hsome with hsome
            rw [← hsome, huri]
            exact hc request hrequest
          have hhandled := handlePageRequest_answers (w := w)
            (c := { c with
              state := .readingHeaders
              request := some request'
              inBuf := inBuf
              calls := c.calls ++ [⟨.content request'.content, c.out⟩] }) rfl (justTaken_concat rfl)
          have hanswered := named_of_answers hhandled (hnamed rfl)
          refine Ends.mono hanswered (fun accepted c₁ h₁ => ?_) fun _ _ => id
          rw [ends_ite]
          refine ⟨fun _ => ?_, fun _ => h₁⟩
          rw [closeInternal, ends_liftOut]
          exact After.of_forall fun _ _ => h₁

theorem handleNewDataFrom_named (fuel : Nat) (hc : Named c) :
    Holds Named (handleNewDataFrom w fuel) c := by
  induction fuel generalizing c with
  | zero => exact hc
  | succ fuel ih =>
      rw [Holds, handleNewDataFrom, ends_bind, ends_get]
      cases hstate : c.state with
      | readingHeaders =>
          dsimp only
          rw [ends_bind]
          refine Ends.mono (handleHeaders_named (w := w) hstate hc) (fun goOn c₁ h₁ => ?_) fun _ _ => id
          rw [ends_ite]
          exact ⟨fun _ => ih h₁, fun _ => h₁⟩
      | readingWebSocketKey3 =>
          exact named_of_takes (handleWebSocketKey3_takes hstate) (Or.inl hstate) hc
      | handlingHixieWebSocket =>
          exact named_of_takes (handleHixieWebSocket_takes hstate) (Or.inr (Or.inl hstate)) hc
      | handlingHybiWebSocket =>
          exact named_of_takes (handleHybiWebSocket_takes hstate) (Or.inr (Or.inr hstate)) hc
      | bufferingPostData => exact handleBufferingPostData_named hc
      | awaitingResponseBegin | sendingResponseHeaders | sendingResponseBody => exact hc
      | invalid => exact Or.inr ⟨.assertion, rfl⟩

/-! ### Runs -/

theorem destroy_named (hc : Named c) : Holds Named (destroy w) c := by
  have hcancel : Ends cancelResponse c (fun _ c' => Named c') fun _ _ => False := by
    simp only [cancelResponse, record, ends_bind, ends_get, ends_ite, ends_modify, ends_pure]
    exact ⟨fun _ => hc, fun _ => hc⟩
  rw [Holds, destroy, ends_bind]
  refine hcancel.mono (fun _ c₁ h₁ => ?_) fun _ _ => False.elim
  rw [ends_bind, ends_get]
  cases c₁.webSocketHandler with
  | none =>
      simp only [ends_bind, ends_liftOut, ends_modify]
      exact After.of_forall fun _ _ => h₁
  | some handler =>
      dsimp only
      rw [ends_bind]
      refine (callHandler_ends _ _ c₁).mono (fun _ c₂ hsends => ?_) fun _ _ => False.elim
      have h₂ : Named c₂ := h₁.same hsends.request_eq
      simp only [ends_bind, ends_liftOut, ends_modify]
      exact After.of_forall fun _ _ => h₂

theorem step_named (event : Event) (hc : Named c) : Holds Named (step w event) c := by
  have dead : Holds Named (fault .badPointer : ConnM Unit) c := Or.inr ⟨.badPointer, rfl⟩
  rw [Holds, step, ends_bind, ends_get]
  cases event with
  | writer call =>
      dsimp only
      rw [ends_ite, ends_ite]
      refine ⟨fun _ => ⟨fun _ => ?_, fun _ => dead⟩, fun _ => hc⟩
      exact named_of_answers (answers_of_writes (writerCall_writes call c)) hc
  | readable result =>
      dsimp only
      rw [ends_ite]
      refine ⟨fun _ => ?_, fun _ => dead⟩
      rw [handleDataReadyForRead, ends_bind, ends_get, ends_ite]
      refine ⟨fun _ => ?_, fun _ => hc⟩
      cases result with
      | error => exact hc
      | endOfStream =>
          dsimp only
          rw [ends_bind, ends_set, closeInternal, ends_liftOut]
          exact After.of_forall fun _ _ => hc
      | data received =>
          dsimp only
          rw [ends_bind, ends_set, handleNewData, ends_bind, ends_get]
          exact handleNewDataFrom_named (c := { c with
            bytesReceived := c.bytesReceived + received.val.length
            inBuf := c.inBuf ++ received.val }) _ hc
  | writable =>
      dsimp only
      rw [ends_ite, ends_liftOut]
      exact ⟨fun _ => After.of_forall fun _ _ => hc, fun _ => dead⟩
  | socket call =>
      dsimp only
      rw [ends_ite]
      refine ⟨fun _ => ?_, fun _ => dead⟩
      exact (wsCall_sends call c).mono (fun _ _ hsends => hc.same (Sends.request_eq hsends))
        fun _ _ => False.elim
  | destroy =>
      dsimp only
      rw [ends_ite]
      exact ⟨fun _ => destroy_named hc, fun _ => dead⟩

theorem run_named {events : List Event} (h : run w events fresh = .ok c) : Named c := by
  have hfresh : Named fresh := by
    intro request hrequest
    cases hrequest
  have hcond : Throughout w (fun _ _ => True) events fresh := fun _ _ _ _ _ _ => trivial
  exact run_holds (fun event c hc _ => step_named event hc) h hfresh hcond

end Connection

/-- **Splitting.** The pieces of a text that is not empty are the text again when they are joined, hold
no separator, and are one more than the separators, with an empty piece wherever there is nothing between
two of them. So the server may look at the first piece of every request URI that the parser lets through,
and of the URI of every request that a connection keeps: it is the URI up to its first `?`. -/
theorem split_pieces (w : World) :
    (∀ (input : Bytes) (splitChar : UInt8), input ≠ [] →
      Pieces splitChar input (split input splitChar) ∧
        EmptyPieces splitChar input (split input splitChar)) ∧
    (∀ memory verb requestUri headers memory',
      RequestParser.block.run memory = .ok (verb, requestUri, headers) memory' →
        EndpointFound w requestUri) ∧
    ∀ events c request, Connection.run w events Connection.fresh = .ok c → c.request = some request →
      EndpointFound w request.requestUri := by
  refine ⟨fun input splitChar hinput => ?_, fun memory verb requestUri headers memory' hparse => ?_,
    fun events c request hrun hrequest => ?_⟩
  · have hpieces := pieces_split hinput splitChar
    exact ⟨hpieces, emptyPieces_of_pieces hpieces⟩
  · have hblock := RequestParser.block_ends memory
    rw [ends_of_run_ok hparse] at hblock
    exact endpointFound_of_ne_nil w hblock.2.2.2
  · exact endpointFound_of_ne_nil w (Connection.run_named hrun request hrequest)

/-- Two pieces with nothing between them, and a URI with a query. -/
theorem split_pieces_query :
    Pieces 44 (ascii "a,,b") (split (ascii "a,,b") 44) ∧
    EmptyPieces 44 (ascii "a,,b") (split (ascii "a,,b") 44) ∧
    EndpointFound World.chat (ascii "/chat?room=1") ∧
    ∃ c request, Connection.run World.chat
        [.readable (.data ⟨ascii "GET /chat?room=1 HTTP/1.1\r\n\r\n", by decide +kernel⟩)]
        Connection.fresh = .ok c ∧
      c.request = some request ∧ EndpointFound World.chat request.requestUri := by
  obtain ⟨hpieces, hparsed, hkept⟩ := split_pieces World.chat
  have huri : RequestParser.Word (ascii "/chat?room=1") := ⟨by decide +kernel, by decide +kernel⟩
  have hfields : ∀ field ∈ ([] : List (Bytes × Bytes)), PlainField field := by
    intro field hfield
    cases hfield
  obtain ⟨memory', hparse⟩ := RequestParser.block_run huri hfields
  have hrun : (do
      let c ← Connection.run World.chat
        [.readable (.data ⟨ascii "GET /chat?room=1 HTTP/1.1\r\n\r\n", by decide +kernel⟩)]
        Connection.fresh
      return c.request.isSome) = (.ok true : Except Fault Bool) := by
    decide +kernel
  obtain ⟨c, hc, hrun⟩ := ok_of_bind_eq_ok hrun
  injection hrun with hsome
  obtain ⟨request, hrequest⟩ := Option.isSome_iff_exists.mp hsome
  obtain ⟨hjoined, hempty⟩ := hpieces (ascii "a,,b") 44 (by decide +kernel)
  refine ⟨hjoined, hempty, hparsed _ _ _ _ _ hparse, c, request, hc, hrequest, ?_⟩
  exact hkept _ c request hc hrequest

end Seasocks
