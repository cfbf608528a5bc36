import Seasocks.Proof.InputStream

/-!
# The body behind a header block

Whether the bytes a `Content-Length` header announces are taken as the body of the request, before
anything else is read from the buffer.
-/

namespace Seasocks.Connection

open Program Relation

variable {w : World} {c : Connection}

/-- The next thing taken from `buffer` are its first `n` bytes, as a body. -/
def TakesBody (n : Nat) (buffer : Bytes) (c c' : Connection) : Prop :=
  c'.inBuf = buffer.drop n ∧ c.calls ++ [⟨.content (buffer.take n), c.out⟩] <+: c'.calls

/-- Whatever the buffer holds when it is looked at again, its first `n` bytes are awaited and then
taken as a body. -/
def BodyNext (w : World) (n : Nat) (c : Connection) : Prop :=
  n = 0 ∨ ∀ buffer : Bytes,
    (buffer.length < n →
      (handleNewData w).run { c with inBuf := buffer } = .ok () { c with inBuf := buffer }) ∧
    (n ≤ buffer.length → Ends (handleNewData w) { c with inBuf := buffer }
      (fun _ c' => TakesBody n buffer c c') fun _ c' => TakesBody n buffer c c')

/-! ### Awaited bodies -/

/-- A request is complete but for its body of `n` bytes. -/
structure AwaitsBody (n : Nat) (c : Connection) : Prop where
  state : c.state = .bufferingPostData
  request : ∃ request, c.request = some request ∧ request.content = [] ∧ request.contentLength = n

theorem Answers.calls_grow {c c' : Connection} (h : Answers w c c') : c.calls <+: c'.calls := by
  induction h with
  | refl => exact List.prefix_rfl
  | tail _ hstep ih => exact ih.trans (Answer.calls_grow hstep)

theorem Answers.sameInput {c c' : Connection} (h : Answers w c c') : SameInput c c' :=
  Serves.sameInput (ReflTransGen.mono (fun _ _ => Serve.answer) _ _ h)

/-- What is answered adds to the log and leaves the buffer alone, even if it throws. -/
theorem inBuf_of_answers {α : Type} {m : ConnM α} (h : Steps (Answer w) Thrown m c) :
    Ends m c (fun _ c' => c'.inBuf = c.inBuf ∧ c.calls <+: c'.calls)
      fun _ c' => c'.inBuf = c.inBuf ∧ c.calls <+: c'.calls := by
  refine Ends.mono h (fun _ c' hsteps => ?_) fun e c' ⟨c₁, hsteps, hlast⟩ => ?_
  · exact ⟨(Answers.sameInput hsteps).1, Answers.calls_grow hsteps⟩
  · exact ⟨hlast.sameInput.1.trans (Answers.sameInput hsteps).1,
      (Answers.calls_grow hsteps).trans hlast.calls_grow⟩

theorem AwaitsBody.bodyNext {n : Nat} (h : AwaitsBody n c) : BodyNext w n c := by
  obtain ⟨hstate, request, hrequest, hcontent, rfl⟩ := h
  refine Or.inr fun buffer => ⟨fun hshort => ?_, fun hlength => ?_⟩
  · have hconsume : request.consumeContent buffer = none := by
      rw [PageRequest.consumeContent, if_pos hshort]
    simp only [handleNewData, handleNewDataFrom, handleBufferingPostData, theRequest,
      EStateM.run_bind, EStateM.run_get, hstate, hrequest]
    simp only [EStateM.run_pure, hconsume]
  · have hconsume := PageRequest.consumeContent_of_le hcontent hlength
    rw [handleNewData, ends_bind, ends_get, handleNewDataFrom, ends_bind, ends_get]
    dsimp only
    rw [hstate]
    dsimp only
    rw [handleBufferingPostData, ends_bind, ends_get, theRequest, ends_bind, ends_bind, ends_get]
    rw [hrequest, ends_pure]
    dsimp only
    rw [hconsume]
    simp only [record, ends_bind, ends_modify]
    refine Ends.mono (inBuf_of_answers (handlePageRequest_answers rfl (justTaken_concat rfl)))
      (fun accepted c' hanswered => ?_) fun _ _ => id
    rw [ends_ite]
    refine ⟨fun _ => ?_, fun _ => hanswered⟩
    rw [closeInternal, ends_liftOut]
    exact hanswered

/-! ### Everything else -/

/-- Nothing has been taken, or a key. -/
def TakesNoBody (c c' : Connection) : Prop :=
  takenBytes c'.calls = takenBytes c.calls ∨
    ∃ key3, c.calls ++ [⟨.key key3, c.out⟩] <+: c'.calls

theorem TakesNoBody.not_takesBody {c' : Connection} {n : Nat} {buffer : Bytes}
    (h : TakesNoBody c c') (hn : n ≠ 0) (hlength : n ≤ buffer.length) :
    ¬ TakesBody n buffer c c' := by
  rintro ⟨-, hcontent⟩
  rcases h with htaken | ⟨key3, hkey⟩
  · obtain ⟨rest, hrest⟩ := hcontent
    have hbytes := congrArg (List.length ∘ takenBytes) hrest
    simp only [Function.comp_apply, takenBytes_append, takenBytes_singleton, Call.taken, htaken,
      List.length_append, List.length_take, Nat.min_eq_left hlength] at hbytes
    omega
  · have hsame := List.prefix_of_prefix_length_le hcontent hkey (by simp)
    have heq := hsame.eq_of_length (by simp)
    simp at heq

/-- A buffer in which nothing but a key can be found. -/
def filler (n : Nat) : Bytes := List.replicate n 0xff

theorem find_filler (n : Nat) : find (crlf ++ crlf) (filler n) = none := by
  induction n with
  | zero => rfl
  | succ n ih =>
      rw [filler, List.replicate_succ, find, ← filler, ih]
      rfl

theorem SameInput.takesNoBody {c' : Connection} (h : SameInput c c') : TakesNoBody c c' := Or.inl h.2

theorem handleWebSocketKey3_takesNoBody :
    Ends (handleWebSocketKey3 w) c (fun _ c' => TakesNoBody c c') fun _ c' => TakesNoBody c c' := by
  have hnothing : TakesNoBody c c := Or.inl rfl
  rw [handleWebSocketKey3, ends_bind, ends_get, ends_ite]
  refine ⟨fun _ => ?_, fun _ => hnothing⟩
  rw [theRequest, ends_bind, ends_bind, ends_get]
  cases c.request with
  | none => exact hnothing
  | some request =>
      simp only [ends_pure, record, startHixie, ends_bind, ends_modify, ends_liftOut, ends_get]
      cases c.webSocketHandler with
      | none => exact Or.inr ⟨_, List.prefix_rfl⟩
      | some handler =>
          refine (callHandler_ends _ _ _).mono (fun _ c' hsends => ?_) fun _ _ => False.elim
          exact Or.inr ⟨_, (List.prefix_append _ _).trans hsends.calls_grow⟩

/-- The end of both loops over messages, on a buffer none was found in. -/
theorem eraseMessages_takesNoBody {c' : Connection} (h : takenBytes c'.calls = takenBytes c.calls) :
    Ends (do
        modify fun c => { c with inBuf := c.inBuf.drop 0 }
        closeIfTooLong : ConnM Unit) c'
      (fun _ c'' => TakesNoBody c c'') fun _ c'' => TakesNoBody c c'' := by
  rw [ends_bind, ends_modify]
  exact (closeIfTooLong_sameInput _).mono (fun _ _ hinput => Or.inl (hinput.2.trans h))
    fun _ _ => False.elim

theorem handleHixieWebSocket_takesNoBody {n : Nat} (hinBuf : c.inBuf = filler n) :
    Ends (handleHixieWebSocket w) c (fun _ c' => TakesNoBody c c') fun _ c' => TakesNoBody c c' := by
  rw [handleHixieWebSocket, ends_bind, ends_get, ends_ite, ends_bind]
  refine ⟨fun hsome => ?_, fun _ => Or.inl rfl⟩
  rw [hixieLoop, List.drop_zero, hinBuf]
  cases n with
  | zero => exact absurd hinBuf hsome
  | succ n =>
      rw [filler, List.replicate_succ]
      dsimp only
      rw [if_pos (by decide), ends_bind]
      exact (closeInternal_sameInput c).mono (fun _ _ h => h.1.takesNoBody) fun _ _ => False.elim

theorem hybiLoop_noMessage {inBuf : Bytes} {messageStart : Nat} (fuel : Nat)
    (h : HybiPacketDecoder.decodeNextMessage inBuf messageStart [] false
      = .ok ⟨.noMessage, [], false, messageStart⟩) :
    hybiLoop w inBuf (fuel + 1) messageStart = pure (some messageStart) := by
  rw [hybiLoop, h]
  simp [inflateMessage, dispatchMessage]

theorem hybiLoop_error {inBuf : Bytes} {messageStart : Nat} (fuel : Nat)
    (h : HybiPacketDecoder.decodeNextMessage inBuf messageStart [] false
      = .ok ⟨.error, [], false, messageStart⟩) :
    hybiLoop w inBuf (fuel + 1) messageStart = (do
      closeInternal
      return none) := by
  rw [hybiLoop, h]
  simp [inflateMessage, dispatchMessage]

theorem handleHybiWebSocket_takesNoBody {n : Nat} (hinBuf : c.inBuf = filler n) :
    Ends (handleHybiWebSocket w) c (fun _ c' => TakesNoBody c c') fun _ c' => TakesNoBody c c' := by
  rw [handleHybiWebSocket, ends_bind, ends_get, ends_ite, ends_bind]
  refine ⟨fun hsome => ?_, fun _ => Or.inl rfl⟩
  rw [hinBuf]
  rcases n with _ | _ | n
  · exact absurd hinBuf hsome
  · rw [hybiLoop_noMessage _ rfl]
    exact eraseMessages_takesNoBody rfl
  · rw [hybiLoop_error _ (HybiPacketDecoder.decodeNextMessage_invalid [] false rfl), ends_bind]
    exact (closeInternal_sameInput c).mono (fun _ _ h => h.1.takesNoBody) fun _ _ => False.elim

/-- In any other state nothing is found in the filler, whatever that state is. -/
theorem handleNewData_takesNoBody {n : Nat} (hstate : c.state ≠ .bufferingPostData)
    (hinBuf : c.inBuf = filler n) :
    Ends (handleNewData w) c (fun _ c' => TakesNoBody c c') fun _ c' => TakesNoBody c c' := by
  have hnothing : TakesNoBody c c := Or.inl rfl
  rw [handleNewData, ends_bind, ends_get, handleNewDataFrom, ends_bind, ends_get]
  cases hcase : c.state with
  | bufferingPostData => exact absurd hcase hstate
  | readingHeaders =>
      dsimp only
      rw [ends_bind, handleHeaders, ends_bind, ends_get, hinBuf, find_filler]
      simp only [ends_ite, ends_bind, ends_pure]
      refine ⟨fun _ => ?_, fun _ => by simpa using hnothing⟩
      refine Ends.mono (sameInput_of_answers (sendError_answers _ _ _)) (fun _ c' h => ?_)
        fun _ c' h => h.takesNoBody
      simpa using h.takesNoBody
  | readingWebSocketKey3 => exact handleWebSocketKey3_takesNoBody
  | handlingHixieWebSocket => exact handleHixieWebSocket_takesNoBody hinBuf
  | handlingHybiWebSocket => exact handleHybiWebSocket_takesNoBody hinBuf
  | awaitingResponseBegin | sendingResponseHeaders | sendingResponseBody => exact hnothing
  | invalid => exact hnothing

theorem not_bodyNext {n : Nat} (hstate : c.state ≠ .bufferingPostData) (hn : n ≠ 0) :
    ¬ BodyNext w n c := by
  intro hbody
  have hlength : n ≤ (filler n).length := by simp [filler]
  have hends := (hbody.resolve_left hn (filler n)).2 hlength
  have hnone := handleNewData_takesNoBody (w := w) (c := { c with inBuf := filler n }) hstate rfl
  have hboth := hends.and hnone
  unfold Ends at hboth
  split at hboth
  · exact TakesNoBody.not_takesBody hboth.2 hn hlength hboth.1
  · exact TakesNoBody.not_takesBody hboth.2 hn hlength hboth.1

/-! ### What becomes of a header block -/

theorem processHeaders_of_parse {last : Nat} {memory : Bytes} {verb : Verb} {requestUri : Bytes}
    {headers : HeaderMap}
    (hparse : RequestParser.block.run (c.inBuf.take last) = .ok (verb, requestUri, headers) memory) :
    (processHeaders w last).run c = (processParsed w verb requestUri headers).run
      { c with inBuf := memory ++ c.inBuf.drop last } := by
  rw [processHeaders, EStateM.run_bind, EStateM.run_get]
  dsimp only
  rw [hparse]
  rfl

theorem parsePerMessageDeflateHeader_run (header : Bytes) (htaken : JustTaken c.calls c.out) :
    ∃ c₁, (parsePerMessageDeflateHeader header).run c = .ok ⟨⟩ c₁ ∧ c₁.state = c.state ∧
      c₁.out = c.out ∧ JustTaken c₁.calls c₁.out := by
  rw [parsePerMessageDeflateHeader]
  induction split header 59 generalizing c with
  | nil => exact ⟨c, rfl, rfl, rfl, htaken⟩
  | cons extField extFields ih =>
      rw [List.forM_cons, EStateM.run_bind]
      by_cases hsame : caseInsensitiveSame (extField.dropWhile isspace) (ascii "permessage-deflate")
      · rw [if_pos hsame]
        have hnext := @ih { c with perMessageDeflate := true, calls := c.calls ++ [⟨.initialise, c.out⟩] }
          (htaken.append _)
        exact hnext
      · rw [if_neg hsame]
        exact ih htaken

/-- A header block that parses is rejected, goes to the page for unknown resources, or becomes a
request. -/
theorem processParsed_cases {verb : Verb} {requestUri : Bytes} {headers : HeaderMap}
    (htaken : JustTaken c.calls c.out) :
    (isUpgrade headers = true ∧ verb ≠ .get ∧ (processParsed w verb requestUri headers).run c
      = (sendBadRequest w (ascii "Non-GET WebSocket request")).run c) ∨
    (isUpgrade headers = true ∧ verb = .get ∧ w.getWebSocketHandler requestUri = none ∧
      (processParsed w verb requestUri headers).run c
        = (send404 w).run { c with webSocketHandler := none }) ∨
    ∃ c₁, c₁.state = c.state ∧ c₁.out = c.out ∧ JustTaken c₁.calls c₁.out ∧
      (isUpgrade headers = true → verb = .get ∧ w.getWebSocketHandler requestUri ≠ none) ∧
      (processParsed w verb requestUri headers).run c
        = (processRequest w (if isUpgrade headers then .webSocket else verb) requestUri headers).run
            c₁ := by
  rw [processParsed]
  by_cases hupgrade : isUpgrade headers = true
  · simp only [hupgrade, if_true]
    by_cases hverb : verb = .get
    · refine Or.inr ?_
      simp only [hverb, ne_eq, not_true, if_false]
      cases hhandler : w.getWebSocketHandler requestUri with
      | none => exact Or.inl ⟨trivial, trivial, rfl, rfl⟩
      | some handler =>
          refine Or.inr ?_
          simp only [Option.isNone_some, Bool.false_eq_true, if_false]
          by_cases hdeflate : (w.perMessageDeflateEnabled
              && headers.count (ascii "Sec-WebSocket-Extensions")) = true
          · obtain ⟨c₁, hrun, hstate, hout, htaken₁⟩ :=
              @parsePerMessageDeflateHeader_run { c with webSocketHandler := some handler }
                (headers.get (ascii "Sec-WebSocket-Extensions")) htaken
            refine ⟨c₁, hstate, hout, htaken₁, by simp, ?_⟩
            rw [if_pos hdeflate]
            exact run_modify_bind.trans (run_bind_of_ok hrun)
          · refine ⟨{ c with webSocketHandler := some handler }, rfl, rfl, htaken, by simp, ?_⟩
            rw [if_neg hdeflate]
            rfl
    · exact Or.inl ⟨trivial, hverb, by rw [if_pos hverb]⟩
  · refine Or.inr (Or.inr ⟨c, rfl, rfl, htaken, fun h => absurd h hupgrade, ?_⟩)
    rw [if_neg hupgrade, if_neg hupgrade]

/-! ### Requests -/

theorem contentLength_create {verb : Verb} {requestUri : Bytes} {headers : HeaderMap} {n : Nat}
    (hlength : headers.find (ascii "Content-Length") = some (decimal n)) :
    (PageRequest.create requestUri verb headers).contentLength = if n < 2 ^ 31 then n else 0 := by
  rw [PageRequest.create, PageRequest.uintOf, hlength]
  dsimp only
  rw [stoi_decimal]
  by_cases hn : n < 2 ^ 31
  · rw [if_pos hn, if_pos hn]
    dsimp only
    omega
  · rw [if_neg hn, if_neg hn]

theorem Answer.not_buffering {c' : Connection} (h : Answer w c c')
    (hstate : c.state ≠ .bufferingPostData) : c'.state ≠ .bufferingPostData := by
  cases h with
  | write hwrite =>
      cases hwrite with
      | send hsend => rwa [Sends.state_eq (ReflTransGen.single hsend)]
      | headers | body | finish => simp
      | encoding | chunk => exact hstate
  | handle | openFile | setHandler => exact hstate
  | respond | awaitKey | connect => simp

theorem not_buffering_of_answers {α : Type} {m : ConnM α} (h : Steps (Answer w) Thrown m c)
    (hstate : c.state ≠ .bufferingPostData) :
    Ends m c (fun _ c' => c'.state ≠ .bufferingPostData) fun _ _ => True :=
  Ends.mono h (fun _ _ hsteps => invariant_of_steps (fun c => c.state ≠ .bufferingPostData)
    (fun _ _ hc hstep => Answer.not_buffering hstep hc) hsteps hstate) fun _ _ _ => trivial

/-- A document that is part of the program, for a verb that gets it. -/
def IsEmbedded (w : World) (verb : Verb) (requestUri : Bytes) : Prop :=
  (verb = .get ∨ verb = .head) ∧ w.embeddedContent requestUri ≠ none

theorem processRequest_not_buffering {verb : Verb} {requestUri : Bytes} {headers : HeaderMap}
    (hstate : c.state = .readingHeaders) (htaken : JustTaken c.calls c.out)
    (hbody : IsEmbedded w verb requestUri ∨
      (PageRequest.create requestUri verb headers).contentLength = 0) :
    Ends (processRequest w verb requestUri headers) c
      (fun _ c' => c'.state ≠ .bufferingPostData) fun _ _ => True := by
  have hreading : c.state ≠ .bufferingPostData := by simp [hstate]
  simp only [processRequest, ends_bind, ends_modify]
  split
  · exact not_buffering_of_answers (answers_of_writes (sendData_writes _ _ _)) hreading
  · exact not_buffering_of_answers
      (answers_of_writes (buffers_writes (Output.bufferContentHeaders_runs _ _) _)) hreading
  · rename_i hget hhead
    rcases hbody with ⟨hverb, hembedded⟩ | hzero
    · obtain ⟨embedded, hembedded⟩ := Option.ne_none_iff_exists'.mp hembedded
      rcases hverb with rfl | rfl
      · exact absurd hembedded (hget embedded rfl)
      · exact absurd hembedded (hhead embedded rfl)
    · rw [hzero, if_neg (Nat.not_lt_zero _), if_pos rfl]
      exact not_buffering_of_answers (handlePageRequest_answers hstate htaken) hreading

/-- The part of `processRequest` that looks at the length of the body. -/
theorem processRequest_of_not_embedded {verb : Verb} {requestUri : Bytes} {headers : HeaderMap}
    (hembedded : ¬ IsEmbedded w verb requestUri) :
    (processRequest w verb requestUri headers).run c =
      (if w.clientBufferSize < (PageRequest.create requestUri verb headers).contentLength then
        sendBadRequest w (ascii "Content length too long")
      else if (PageRequest.create requestUri verb headers).contentLength = 0 then
        handlePageRequest w
      else do
        setState .bufferingPostData
        return true).run
        { c with request := some (PageRequest.create requestUri verb headers) } := by
  have hnone : verb = .get ∨ verb = .head → w.embeddedContent requestUri = none := fun hverb => by
    by_contra hsome
    exact hembedded ⟨hverb, hsome⟩
  unfold processRequest
  cases verb with
  | get | head =>
      rw [hnone (by simp)]
      rfl
  | invalid | webSocket | put | post | delete | options => rfl

/-- A connection is closed behind an error page. -/
theorem sendError_closing (responseCode : ResponseCode) (body : Bytes) (c : Connection) :
    Ends (sendError w responseCode body) c
      (fun accepted c' => accepted = true → c'.closing = true) fun _ _ => True := by
  rw [sendError, ends_bind, ends_get, ends_ite]
  refine ⟨fun _ => trivial, fun _ => ?_⟩
  rw [ends_liftOut, Output.sendError]
  simp only [after_bind, after_ite, after_pure]
  refine After.of_forall fun _ _ => After.of_forall fun _ _ => After.of_forall fun _ _ =>
    After.of_forall fun _ _ => After.of_forall fun _ _ => After.of_forall fun _ o => ?_
  exact ⟨fun _ => (Output.closeWhenEmpty_closing o).mono fun _ _ h _ => h, fun _ h => by cases h⟩

/-- An upgrade request to an unknown endpoint is answered before there is a request, and an embedded
document is sent before the length of the body is looked at. -/
def AnsweredEarly (w : World) (verb : Verb) (requestUri : Bytes) (headers : HeaderMap) : Prop :=
  if isUpgrade headers then verb = .get ∧ w.getWebSocketHandler requestUri = none
  else IsEmbedded w verb requestUri

/-- The body is known to be `n` bytes long. -/
def BodyCounted (w : World) (verb : Verb) (requestUri : Bytes) (headers : HeaderMap) (n : Nat) :
    Prop :=
  n = 0 ∨ n < 2 ^ 31 ∧ ¬ AnsweredEarly w verb requestUri headers

section Requests

variable {verb : Verb} {requestUri : Bytes} {headers : HeaderMap} {n : Nat}

theorem not_isEmbedded_of_not_answeredEarly (h : ¬ AnsweredEarly w verb requestUri headers) :
    ¬ IsEmbedded w (if isUpgrade headers then .webSocket else verb) requestUri := by
  unfold AnsweredEarly at h
  split_ifs at h ⊢ with hupgrade
  · rintro ⟨hverb, -⟩
    simp at hverb
  · exact h

/-- A request whose body is counted is rejected when the body is too long, and awaits it otherwise. -/
theorem processParsed_of_counted (htaken : JustTaken c.calls c.out)
    (hlength : headers.find (ascii "Content-Length") = some (decimal n)) (hn : n < 2 ^ 31)
    (hlate : ¬ AnsweredEarly w verb requestUri headers) :
    (∃ reason c₁, c₁.out = c.out ∧ (processParsed w verb requestUri headers).run c
      = (sendBadRequest w reason).run c₁) ∨
    n ≤ w.clientBufferSize ∧ (n = 0 ∨
      ∃ c₁, AwaitsBody n c₁ ∧ (processParsed w verb requestUri headers).run c = .ok true c₁) := by
  rcases processParsed_cases htaken with ⟨-, -, hrun⟩ | ⟨hupgrade, hget, hnone, -⟩ |
    ⟨c₁, -, hout, -, -, hrun⟩
  · exact Or.inl ⟨_, c, rfl, hrun⟩
  · exact absurd (by rw [AnsweredEarly, if_pos hupgrade]; exact ⟨hget, hnone⟩) hlate
  · rw [processRequest_of_not_embedded (not_isEmbedded_of_not_answeredEarly hlate),
      contentLength_create hlength, if_pos hn] at hrun
    by_cases hlong : w.clientBufferSize < n
    · rw [if_pos hlong] at hrun
      refine Or.inl ⟨_, _, ?_, hrun⟩
      exact hout
    · refine Or.inr ⟨Nat.le_of_not_lt hlong, ?_⟩
      by_cases hzero : n = 0
      · exact Or.inl hzero
      · rw [if_neg hlong, if_neg hzero] at hrun
        refine Or.inr ⟨_, ⟨rfl, _, rfl, rfl, ?_⟩, hrun⟩
        rw [contentLength_create hlength, if_pos hn]

theorem processParsed_not_buffering (hstate : c.state = .readingHeaders)
    (htaken : JustTaken c.calls c.out)
    (hlength : headers.find (ascii "Content-Length") = some (decimal n))
    (hbody : ¬ n < 2 ^ 31 ∨ AnsweredEarly w verb requestUri headers) :
    Ends (processParsed w verb requestUri headers) c
      (fun _ c' => c'.state ≠ .bufferingPostData) fun _ _ => True := by
  have hreading : c.state ≠ .bufferingPostData := by simp [hstate]
  rcases processParsed_cases (w := w) htaken with ⟨-, -, hrun⟩ | ⟨-, -, -, hrun⟩ |
    ⟨c₁, hstate₁, hout, htaken₁, hupgrade, hrun⟩
  · rw [Ends, hrun]
    exact not_buffering_of_answers (sendError_answers _ _ c) hreading
  · rw [Ends, hrun]
    exact not_buffering_of_answers (send404_answers { c with webSocketHandler := none }) hreading
  · rw [Ends, hrun]
    refine processRequest_not_buffering (hstate₁.trans hstate) htaken₁ ?_
    rcases hbody with hn | hearly
    · exact Or.inr (by rw [contentLength_create hlength, if_neg hn])
    · unfold AnsweredEarly at hearly
      split_ifs at hearly ⊢ with hyes
      · exact absurd hearly.2 (hupgrade hyes).2
      · exact Or.inl hearly

/-- The connection with a header block taken, as `processHeaders` is called. -/
def blockTaken (c : Connection) (i : Nat) : Connection :=
  { c with calls := c.calls ++ [⟨.headers (c.inBuf.take (i + 4)), c.out⟩] }

/-- **Bodies.** Of a request that is accepted, the announced bytes are what is taken next, and no more
than the client buffer may hold, exactly if they are counted; a counted body that is too long is answered
with the error page of a bad request. -/
theorem accepted_bodyNext_iff {i : Nat} {memory : Bytes} (hstate : c.state = .readingHeaders)
    (hparse : RequestParser.block.run (c.inBuf.take (i + 2)) = .ok (verb, requestUri, headers) memory)
    (hlength : headers.find (ascii "Content-Length") = some (decimal n)) :
    (∀ c', (processHeaders w (i + 2)).run (blockTaken c i) = .ok true c' → c'.closing = false →
      (BodyNext w n c' ∧ n ≤ w.clientBufferSize ↔ BodyCounted w verb requestUri headers n)) ∧
    (BodyCounted w verb requestUri headers n → w.clientBufferSize < n →
      ∃ reason c₁, c₁.out = c.out ∧ (processHeaders w (i + 2)).run (blockTaken c i)
        = (sendBadRequest w reason).run c₁) := by
  rw [processHeaders_of_parse (c := blockTaken c i) hparse]
  have htaken : JustTaken (blockTaken c i).calls (blockTaken c i).out := justTaken_concat rfl
  generalize hc₀ : ({ blockTaken c i with inBuf := _ } : Connection) = c₀
  have hstate₀ : c₀.state = .readingHeaders := by rw [← hc₀]; exact hstate
  have htaken₀ : JustTaken c₀.calls c₀.out := by rw [← hc₀]; exact htaken
  have hout₀ : c₀.out = c.out := by rw [← hc₀]; rfl
  constructor
  · intro c' hrun hopen
    constructor
    · rintro ⟨hbody, -⟩
      by_contra hnot
      rw [BodyCounted, not_or, not_and_or, not_not] at hnot
      have hstate' := processParsed_not_buffering (w := w) hstate₀ htaken₀ hlength hnot.2
      rw [Ends, hrun] at hstate'
      exact not_bodyNext hstate' hnot.1 hbody
    · rintro (rfl | ⟨hn, hlate⟩)
      · exact ⟨Or.inl rfl, Nat.zero_le _⟩
      · rcases processParsed_of_counted (w := w) htaken₀ hlength hn hlate with
          ⟨reason, c₁, -, hreject⟩ | ⟨hle, hzero | ⟨c₁, hawaits, haccept⟩⟩
        · have hclosing := sendError_closing (w := w) .badRequest reason c₁
          rw [Ends, ← sendBadRequest, ← hreject, hrun] at hclosing
          rw [hclosing rfl] at hopen
          cases hopen
        · exact ⟨Or.inl hzero, hle⟩
        · rw [hrun] at haccept
          injection haccept with _ hc'
          rw [hc']
          exact ⟨hawaits.bodyNext, hle⟩
  · rintro (rfl | ⟨hn, hlate⟩) hlong
    · exact absurd hlong (Nat.not_lt_zero _)
    · rcases processParsed_of_counted (w := w) htaken₀ hlength hn hlate with
        ⟨reason, c₁, hout, hreject⟩ | ⟨hle, -⟩
      · exact ⟨reason, c₁, hout.trans hout₀, hreject⟩
      · exact absurd hle (Nat.not_le_of_lt hlong)

end Requests

/-- A form of five bytes. -/
theorem accepted_bodyNext_post :
    ∃ c', (processHeaders World.plain 36).run
        (blockTaken
          { fresh with inBuf := ascii "POST / HTTP/1.1\r\nContent-Length: 5\r\n\r\n" } 34)
        = .ok true c' ∧ BodyNext World.plain 5 c' := by
  obtain ⟨_, c', haccept, rfl, hopen⟩ := Ends.returns (by decide +kernel :
    Ends (processHeaders World.plain 36)
      (blockTaken { fresh with inBuf := ascii "POST / HTTP/1.1\r\nContent-Length: 5\r\n\r\n" } 34)
      (fun accepted c' => accepted = true ∧ c'.closing = false) fun _ _ => False)
  obtain ⟨⟨verb, requestUri, headers⟩, memory, hblock, hlength, hupgrade, hpost⟩ :=
    Ends.returns (by decide +kernel : Ends RequestParser.block
      ((ascii "POST / HTTP/1.1\r\nContent-Length: 5\r\n\r\n").take 36)
      (fun parsed _ => parsed.2.2.find (ascii "Content-Length") = some (decimal 5) ∧
        isUpgrade parsed.2.2 = false ∧ parsed.1 = .post) fun _ _ => False)
  refine ⟨c', haccept, ?_⟩
  refine (((accepted_bodyNext_iff rfl hblock hlength).1 c' haccept hopen).mpr ?_).1
  refine Or.inr ⟨by decide, ?_⟩
  rw [AnsweredEarly, hupgrade]
  rintro ⟨rfl | rfl, -⟩
  · cases hpost
  · cases hpost

/-- A request for an embedded document that announces a body. -/
theorem not_bodyNext_embedded :
    ∃ c', (processHeaders World.embedded 36).run
        (blockTaken
          { fresh with inBuf := ascii "GET / HTTP/1.1\r\nContent-Length: 18\r\n\r\n" } 34)
        = .ok true c' ∧ c'.closing = false ∧ ¬ BodyNext World.embedded 18 c' := by
  obtain ⟨_, c', haccept, rfl, hopen, hstate⟩ := Ends.returns (by decide +kernel :
    Ends (processHeaders World.embedded 36)
      (blockTaken { fresh with inBuf := ascii "GET / HTTP/1.1\r\nContent-Length: 18\r\n\r\n" } 34)
      (fun accepted c' => accepted = true ∧ c'.closing = false ∧ c'.state ≠ .bufferingPostData)
      fun _ _ => False)
  exact ⟨c', haccept, hopen, not_bodyNext hstate (by decide)⟩

end Seasocks.Connection
