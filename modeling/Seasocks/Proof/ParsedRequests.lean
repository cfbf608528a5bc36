import Seasocks.Proof.Endpoints

/-!
# Where requests come from

A request that a connection has, or that the page handlers are asked about, is what the parser has made of
a header block taken from the input.
-/

namespace Seasocks.Connection

open Program Relation

variable {w : World} {c : Connection}

/-- A header block has been taken that the parser reads as this. -/
def ReadFrom (calls : List Entry) (requestUri : Bytes) (headers : HeaderMap) : Prop :=
  ∃ (block memory : Bytes) (verb : Verb) (out : Output), ⟨.headers (block ++ crlf), out⟩ ∈ calls ∧
    RequestParser.block.run block = .ok (verb, requestUri, headers) memory

theorem ReadFrom.grow {calls calls' : List Entry} {requestUri : Bytes} {headers : HeaderMap}
    (h : ReadFrom calls requestUri headers) (hgrows : calls <+: calls') :
    ReadFrom calls' requestUri headers := by
  obtain ⟨block, memory, verb, out, hmem, hparse⟩ := h
  exact ⟨block, memory, verb, out, hgrows.subset hmem, hparse⟩

def isHandle : Call → Bool
  | .handle _ => true
  | _ => false

structure Parsed (c : Connection) : Prop where
  request : ∀ request, c.request = some request → ReadFrom c.calls request.requestUri request.headers
  handled : ∀ before request out, before ++ [⟨.handle request, out⟩] <+: c.calls →
    ReadFrom before request.requestUri request.headers

theorem parsed_fresh : Parsed fresh where
  request := fun request hrequest => by cases hrequest
  handled := fun before request out hbefore => by
    obtain ⟨after, hafter⟩ := hbefore
    exact absurd hafter (by simp [fresh])

/-! ### Steps -/

theorem Parsed.append {c' : Connection} {calls : List Entry} (h : Parsed c)
    (hrequest : ∀ request, c'.request = some request → ReadFrom c'.calls request.requestUri request.headers)
    (hcalls : c'.calls = c.calls ++ calls) (hnone : ∀ entry ∈ calls, isHandle entry.call = false) :
    Parsed c' where
  request := hrequest
  handled := by
    intro before request out hbefore
    rw [hcalls] at hbefore
    rcases List.prefix_or_prefix_of_prefix hbefore (List.prefix_append c.calls calls) with hshort | hlong
    · exact h.handled before request out hshort
    · obtain ⟨more, hmore⟩ := hlong
      rcases List.eq_nil_or_concat more with rfl | ⟨more, entry, rfl⟩
      · rw [List.append_nil] at hmore
        exact h.handled before request out (hmore ▸ List.prefix_rfl)
      · rw [List.concat_eq_append, ← List.append_assoc] at hmore
        obtain ⟨-, hlast⟩ := List.append_inj' hmore rfl
        injection hlast with hentry
        subst hentry
        obtain ⟨after, hafter⟩ := hbefore
        rw [← hmore, List.append_assoc, List.append_assoc, List.append_cancel_left_eq] at hafter
        have hmem : (⟨.handle request, out⟩ : Entry) ∈ calls := by
          rw [← hafter]
          simp
        exact absurd (hnone _ hmem) (by simp [isHandle])

theorem Parsed.frame {c' : Connection} {calls : List Entry} (h : Parsed c) (hrequest : c'.request = c.request)
    (hcalls : c'.calls = c.calls ++ calls) (hnone : ∀ entry ∈ calls, isHandle entry.call = false) :
    Parsed c' := by
  refine h.append (fun request hsome => ?_) hcalls hnone
  rw [hcalls]
  exact (h.request request (hrequest.symm.trans hsome)).grow (List.prefix_append _ _)

theorem Parsed.same {c' : Connection} (h : Parsed c) (hrequest : c'.request = c.request)
    (hcalls : c'.calls = c.calls) : Parsed c' :=
  h.frame hrequest (hcalls.trans (List.append_nil _).symm) (by simp)

theorem Parsed.sends {c' : Connection} (h : Parsed c) (hsends : Sends w c c') : Parsed c' := by
  obtain ⟨out, calls, rfl, -, hcalls⟩ := hsends.frame
  refine h.frame rfl rfl fun entry hentry => ?_
  obtain ⟨input, hinput⟩ := hcalls entry hentry
  rw [hinput]
  rfl

/-- One more entry, which does not ask the page handlers. -/
theorem Parsed.log {c' : Connection} {entry : Entry} (h : Parsed c) (hrequest : c'.request = c.request)
    (hcalls : c'.calls = c.calls ++ [entry]) (hcall : isHandle entry.call = false) : Parsed c' :=
  h.frame hrequest hcalls fun other hother => by rwa [List.mem_singleton.mp hother]

theorem Parsed.record {call : Call} (h : Parsed c) (hcall : isHandle call = false) :
    Parsed { c with calls := c.calls ++ [⟨call, c.out⟩] } :=
  h.log rfl rfl hcall

/-- The page handlers are asked about the request of the connection. -/
theorem Parsed.handle {request : PageRequest} (h : Parsed c) (hrequest : c.request = some request) :
    Parsed { c with calls := c.calls ++ [⟨.handle request, c.out⟩] } where
  request := fun request' hrequest' => (h.request request' hrequest').grow (List.prefix_append _ _)
  handled := by
    intro before request' out hbefore
    rcases List.prefix_concat_iff.mp hbefore with hwhole | hpart
    · obtain ⟨hsame, hlast⟩ := List.append_inj' hwhole rfl
      injection hlast with hentry
      injection hentry with hcall
      injection hcall with hcall
      rw [hsame, hcall]
      exact h.request request hrequest
    · exact h.handled before request' out hpart

theorem Parsed.answer {c' : Connection} (h : Parsed c) (hstep : Answer w c c') : Parsed c' := by
  cases hstep with
  | write hwrite =>
      cases hwrite with
      | send hsend => exact h.sends (ReflTransGen.single hsend)
      | headers | encoding | body | chunk | finish => exact h.same rfl rfl
  | setHandler | respond | awaitKey => exact h.same rfl rfl
  | handle hstate hrequest => exact h.handle hrequest
  | openFile =>
      refine h.record ?_
      rfl
  | connect hstate hhandler hverb hcalls hout hsends =>
      exact Parsed.same (Parsed.sends (h.log (by rfl) (by rfl) (by rfl)) hsends) rfl rfl

/-- Steps that keep it, up to where something is thrown. -/
theorem parsed_of_steps {α : Type} {m : ConnM α} {Step : Connection → Connection → Prop}
    (hsteps : Steps Step Thrown m c) (hparsed : ∀ c', ReflTransGen Step c c' → Parsed c') :
    Holds Parsed m c := by
  refine Ends.mono hsteps (fun _ => hparsed) ?_
  rintro e c' ⟨c₁, hsteps₁, hlast⟩
  have h₁ := hparsed c₁ hsteps₁
  cases hlast with
  | fault => exact Or.inl h₁
  | range => exact Or.inl (h₁.record rfl)

theorem parsed_of_answers {α : Type} {m : ConnM α} (hsteps : Steps (Answer w) Thrown m c) (h : Parsed c) :
    Holds Parsed m c :=
  parsed_of_steps hsteps fun _ hanswers => invariant_of_steps Parsed (fun _ _ => Parsed.answer) hanswers h

theorem parsed_of_writes {α : Type} {m : ConnM α} (hsteps : Steps (WriteStep w) Thrown m c) (h : Parsed c) :
    Holds Parsed m c := parsed_of_answers (answers_of_writes hsteps) h

/-- Once a connection is switched, nothing reads a request. -/
theorem Move.parsed {c' : Connection} (hstep : Move w c c') (hstate : Switched c) (h : Parsed c) : Parsed c' := by
  have reading : c.state ≠ .readingHeaders := by
    intro hreading
    rcases hstate with hkey | hhixie | hhybi
    · exact absurd (hreading.symm.trans hkey) (by decide)
    · exact absurd (hreading.symm.trans hhixie) (by decide)
    · exact absurd (hreading.symm.trans hhybi) (by decide)
  cases hstep with
  | serve hserve =>
      cases hserve with
      | answer hanswer => exact h.answer hanswer
      | initialise =>
          have hflagged : Parsed { c with perMessageDeflate := true } := h.same rfl rfl
          exact hflagged.record rfl
      | create request hreading => exact absurd hreading reading
      | buffer => exact h.same rfl rfl
  | content hbuffering =>
      rcases hstate with hkey | hhixie | hhybi
      · exact absurd (hbuffering.symm.trans hkey) (by decide)
      · exact absurd (hbuffering.symm.trans hhixie) (by decide)
      · exact absurd (hbuffering.symm.trans hhybi) (by decide)
  | headers | key | message | frame | inflate =>
      refine h.record ?_
      rfl
  | overwrite | drop | connectNobody | receive | enlarge | vanish => exact h.same rfl rfl
  | connect =>
      exact h.log rfl rfl rfl
  | data hsocket hhandler htaken hcall =>
      refine h.record ?_
      obtain ⟨message, rfl | rfl⟩ := hcall <;> rfl
  | cancel =>
      exact h.log rfl rfl rfl
  | disconnect halive hresponse hhandler hsends =>
      exact Parsed.same (Parsed.sends (h.record rfl) hsends) rfl rfl

theorem parsed_of_takes {α : Type} {m : ConnM α} (hsteps : Steps (Take w) Thrown m c) (hstate : Switched c)
    (h : Parsed c) : Holds Parsed m c := by
  refine parsed_of_steps hsteps fun c' htakes => ?_
  have hkeeps : ∀ c₁ c₂, Switched c₁ ∧ Parsed c₁ → Take w c₁ c₂ → Switched c₂ ∧ Parsed c₂ :=
    fun _ _ hc₁ htake => ⟨(Move.switched htake.1 hc₁.1).1, Move.parsed htake.1 hc₁.1 hc₁.2⟩
  exact (invariant_of_steps (fun c => Switched c ∧ Parsed c) hkeeps htakes ⟨hstate, h⟩).2

/-! ### Reading a request -/

theorem processRequest_parsed {verb : Verb} {requestUri : Bytes} {headers : HeaderMap}
    (hstate : c.state = .readingHeaders) (htaken : JustTaken c.calls c.out)
    (hread : ReadFrom c.calls requestUri headers) (h : Parsed c) :
    Holds Parsed (processRequest w verb requestUri headers) c := by
  have hcreated : Parsed { c with request := some (PageRequest.create requestUri verb headers) } := by
    refine h.append (fun request hrequest => ?_) (List.append_nil _).symm (by simp)
    injection hrequest with hrequest
    rw [← hrequest]
    exact hread
  unfold Holds
  simp only [processRequest, ends_bind, ends_modify]
  split
  · exact parsed_of_writes (sendData_writes (w := w) _ _ _) hcreated
  · exact parsed_of_writes (buffers_writes (Output.bufferContentHeaders_runs (w := w) _ _) _) hcreated
  · rw [ends_ite, ends_ite]
    refine ⟨fun _ => ?_, fun _ => ⟨fun _ => ?_, fun _ => ?_⟩⟩
    · exact parsed_of_writes (sendError_writes (w := w) _ _ _) hcreated
    · exact parsed_of_answers (handlePageRequest_answers (w := w) hstate htaken) hcreated
    · rw [setState, ends_bind, ends_modify]
      exact hcreated.same rfl rfl

theorem processParsed_parsed {verb : Verb} {requestUri : Bytes} {headers : HeaderMap}
    (hstate : c.state = .readingHeaders) (htaken : JustTaken c.calls c.out)
    (hread : ReadFrom c.calls requestUri headers) (h : Parsed c) :
    Holds Parsed (processParsed w verb requestUri headers) c := by
  rw [Holds, processParsed, ends_ite, ends_ite]
  refine ⟨fun _ => ⟨fun _ => parsed_of_writes (sendError_writes _ _ _) h, fun _ => ?_⟩,
    fun _ => processRequest_parsed hstate htaken hread h⟩
  have hset : Parsed { c with webSocketHandler := w.getWebSocketHandler requestUri } := h.same rfl rfl
  rw [ends_bind, ends_modify, ends_ite]
  refine ⟨fun _ => parsed_of_writes (send404_writes _) hset, fun _ => ?_⟩
  split_ifs
  · rw [ends_bind]
    have hinitialised : Ends (parsePerMessageDeflateHeader (headers.get (ascii "Sec-WebSocket-Extensions")))
        { c with webSocketHandler := w.getWebSocketHandler requestUri }
        (fun _ c' => Parsed c' ∧ c'.state = .readingHeaders ∧ JustTaken c'.calls c'.out ∧
          ReadFrom c'.calls requestUri headers) fun _ _ => False := by
      refine ends_forM ?_ ⟨hset, hstate, htaken, hread⟩
      rintro extField - c₁ ⟨h₁, hstate₁, htaken₁, hread₁⟩
      rw [ends_ite]
      refine ⟨fun _ => ?_, fun _ => ⟨h₁, hstate₁, htaken₁, hread₁⟩⟩
      rw [ends_bind, ends_modify]
      have hflagged : Parsed { c₁ with perMessageDeflate := true } := h₁.same rfl rfl
      refine ⟨hflagged.record rfl, hstate₁, htaken₁.append _, ?_⟩
      exact hread₁.grow (List.prefix_append _ _)
    refine hinitialised.mono (fun _ c' hc' => ?_) fun _ _ => False.elim
    exact processRequest_parsed hc'.2.1 hc'.2.2.1 hc'.2.2.2 hc'.1
  · exact processRequest_parsed hstate htaken hread hset

theorem processHeaders_parsed {last : Nat} (hstate : c.state = .readingHeaders) (htaken : JustTaken c.calls c.out)
    (hblock : ∃ out, ⟨.headers (c.inBuf.take last ++ crlf), out⟩ ∈ c.calls) (h : Parsed c) :
    Holds Parsed (processHeaders w last) c := by
  obtain ⟨out, hblock⟩ := hblock
  rw [Holds, processHeaders, ends_bind, ends_get]
  cases hrun : RequestParser.block.run (c.inBuf.take last) with
  | ok parsed memory =>
      obtain ⟨verb, requestUri, headers⟩ := parsed
      dsimp only
      rw [ends_bind, ends_set]
      exact processParsed_parsed (w := w) (c := { c with inBuf := memory ++ c.inBuf.drop last })
        hstate htaken ⟨_, memory, verb, out, hblock, hrun⟩ (h.same rfl rfl)
  | error stop memory =>
      cases stop with
      | fault f => exact ends_fault.mpr (Or.inr ⟨f, rfl⟩)
      | reject responseCode reason =>
          dsimp only
          rw [ends_bind, ends_set]
          exact parsed_of_writes (sendError_writes (w := w) responseCode reason
            { c with inBuf := memory ++ c.inBuf.drop last }) (h.same rfl rfl)

theorem closeInternal_parsed (h : Parsed c) : Ends closeInternal c (fun _ c' => Parsed c') fun _ _ => False := by
  rw [closeInternal, ends_liftOut]
  exact After.of_forall fun _ _ => h.same rfl rfl

theorem handleHeaders_parsed (hstate : c.state = .readingHeaders) (h : Parsed c) :
    Holds Parsed (handleHeaders w) c := by
  rw [Holds, handleHeaders, ends_bind, ends_get]
  cases hfind : find (crlf ++ crlf) c.inBuf with
  | none =>
      dsimp only
      rw [ends_ite, ends_bind]
      exact ⟨fun _ => parsed_of_writes (sendError_writes _ _ _) h, fun _ => h⟩
  | some i =>
      dsimp only
      rw [record, ends_bind, ends_modify]
      have hblock : c.inBuf.take (i + 4) = c.inBuf.take (i + 2) ++ crlf := by
        obtain ⟨more, hmore⟩ := List.isPrefixOf_iff_prefix.mp (isPrefixOf_of_find hfind)
        have hdrop : c.inBuf.drop (i + 2) = crlf ++ more := by
          rw [← List.drop_drop, ← hmore]
          rfl
        have hfour : i + 4 = i + 2 + 2 := rfl
        rw [hfour, List.take_add, hdrop]
        rfl
      refine Holds.bind (processHeaders_parsed (w := w)
        (c := { c with calls := c.calls ++ [⟨.headers (c.inBuf.take (i + 4)), c.out⟩] })
        hstate (justTaken_concat rfl) ?_ (h.record rfl)) (fun _ => id) fun accepted c' hc' => ?_
      · rw [hblock]
        exact ⟨c.out, List.mem_append_right _ (List.mem_singleton.mpr rfl)⟩
      · rw [Holds, ends_ite]
        refine ⟨fun _ => ?_, fun _ => ?_⟩
        · simp only [ends_bind, ends_modify, ends_pure]
          exact hc'.same rfl rfl
        · rw [ends_bind]
          exact (closeInternal_parsed hc').mono (fun _ _ => id) fun _ _ => False.elim

theorem handleBufferingPostData_parsed (h : Parsed c) : Holds Parsed (handleBufferingPostData w) c := by
  rw [Holds, handleBufferingPostData, ends_bind, ends_get, ends_bind, theRequest, ends_bind, ends_get]
  cases hrequest : c.request with
  | none => exact ends_fault.mpr (Or.inr ⟨_, rfl⟩)
  | some request =>
      rw [ends_pure]
      cases hconsume : request.consumeContent c.inBuf with
      | none => exact h
      | some consumed =>
          obtain ⟨request', inBuf⟩ := consumed
          have hsame : request'.requestUri = request.requestUri ∧ request'.headers = request.headers := by
            rw [PageRequest.consumeContent] at hconsume
            split_ifs at hconsume
            all_goals
              injection hconsume with hconsume
              rw [Prod.mk.injEq] at hconsume
              rw [← hconsume.1]
              exact ⟨rfl, rfl⟩
          dsimp only
          rw [record, ends_bind, ends_modify, ends_bind, ends_modify, ends_bind]
          have hread := h.request request hrequest
          rw [← hsame.1, ← hsame.2] at hread
          have hconsumed := handlePageRequest_answers (w := w)
            (c := { c with
              state := .readingHeaders
              request := some request'
              inBuf := inBuf
              calls := c.calls ++ [⟨.content request'.content, c.out⟩] }) rfl (justTaken_concat rfl)
          refine Ends.mono (parsed_of_answers hconsumed ?_) (fun accepted c₁ h₁ => ?_) fun _ _ => id
          · refine h.append (fun request₁ hrequest₁ => ?_) rfl fun entry hentry => ?_
            · injection hrequest₁ with hrequest₁
              rw [← hrequest₁]
              exact hread.grow (List.prefix_append _ _)
            · rw [List.mem_singleton.mp hentry]
              rfl
          · rw [ends_ite]
            refine ⟨fun _ => ?_, fun _ => h₁⟩
            exact (closeInternal_parsed h₁).mono (fun _ _ => id) fun _ _ => False.elim

theorem handleNewDataFrom_parsed (fuel : Nat) (h : Parsed c) : Holds Parsed (handleNewDataFrom w fuel) c := by
  induction fuel generalizing c with
  | zero => exact h
  | succ fuel ih =>
      rw [Holds, handleNewDataFrom, ends_bind, ends_get]
      cases hstate : c.state with
      | readingHeaders =>
          dsimp only
          rw [ends_bind]
          refine Ends.mono (handleHeaders_parsed (w := w) hstate h) (fun goOn c₁ h₁ => ?_) fun _ _ => id
          rw [ends_ite]
          exact ⟨fun _ => ih h₁, fun _ => h₁⟩
      | readingWebSocketKey3 => exact parsed_of_takes (handleWebSocketKey3_takes hstate) (Or.inl hstate) h
      | handlingHixieWebSocket =>
          exact parsed_of_takes (handleHixieWebSocket_takes hstate) (Or.inr (Or.inl hstate)) h
      | handlingHybiWebSocket =>
          exact parsed_of_takes (handleHybiWebSocket_takes hstate) (Or.inr (Or.inr hstate)) h
      | bufferingPostData => exact handleBufferingPostData_parsed h
      | awaitingResponseBegin | sendingResponseHeaders | sendingResponseBody => exact h
      | invalid => exact ends_fault.mpr (Or.inr ⟨_, rfl⟩)

/-! ### Events -/

theorem destroy_parsed (h : Parsed c) : Holds Parsed (destroy w) c := by
  have hcancel : Ends cancelResponse c (fun _ c' => Parsed c') fun _ _ => False := by
    simp only [cancelResponse, record, ends_bind, ends_get, ends_ite, ends_modify, ends_pure]
    exact ⟨fun _ => h.log rfl rfl rfl, fun _ => h⟩
  rw [Holds, destroy, ends_bind]
  refine hcancel.mono (fun _ c₁ h₁ => ?_) fun _ _ => False.elim
  rw [ends_bind, ends_get]
  cases c₁.webSocketHandler with
  | none =>
      simp only [ends_bind, ends_liftOut, ends_modify]
      exact After.of_forall fun _ _ => h₁.same rfl rfl
  | some handler =>
      dsimp only
      rw [ends_bind]
      refine (callHandler_ends _ _ c₁).mono (fun _ c₂ hsends => ?_) fun _ _ => False.elim
      have h₂ : Parsed c₂ := Parsed.sends (h₁.record rfl) hsends
      simp only [ends_bind, ends_liftOut, ends_modify]
      exact After.of_forall fun _ _ => h₂.same rfl rfl

theorem step_parsed (event : Event) (h : Parsed c) : Holds Parsed (step w event) c := by
  have dead : Holds Parsed (fault .badPointer : ConnM Unit) c := ends_fault.mpr (Or.inr ⟨_, rfl⟩)
  rw [Holds, step, ends_bind, ends_get]
  cases event with
  | writer call =>
      dsimp only
      rw [ends_ite, ends_ite]
      refine ⟨fun _ => ⟨fun _ => ?_, fun _ => dead⟩, fun _ => h⟩
      exact parsed_of_writes (writerCall_writes call c) h
  | readable result =>
      dsimp only
      rw [ends_ite]
      refine ⟨fun _ => ?_, fun _ => dead⟩
      rw [handleDataReadyForRead, ends_bind, ends_get, ends_ite]
      refine ⟨fun _ => ?_, fun _ => h⟩
      cases result with
      | error => exact h.same rfl rfl
      | endOfStream =>
          dsimp only
          rw [ends_bind, ends_set]
          refine (closeInternal_parsed (h.same ?_ ?_)).mono (fun _ _ => id) fun _ _ => False.elim
          · rfl
          · rfl
      | data received =>
          dsimp only
          rw [ends_bind, ends_set, handleNewData, ends_bind, ends_get]
          exact handleNewDataFrom_parsed _ (h.same rfl rfl)
  | writable =>
      dsimp only
      rw [ends_ite, ends_liftOut]
      exact ⟨fun _ => After.of_forall fun _ _ => h.same rfl rfl, fun _ => dead⟩
  | socket call =>
      dsimp only
      rw [ends_ite]
      refine ⟨fun _ => ?_, fun _ => dead⟩
      exact (wsCall_sends call c).mono (fun _ _ hsends => h.sends hsends) fun _ _ => False.elim
  | destroy =>
      dsimp only
      rw [ends_ite]
      exact ⟨fun _ => destroy_parsed h, fun _ => dead⟩

end Seasocks.Connection
