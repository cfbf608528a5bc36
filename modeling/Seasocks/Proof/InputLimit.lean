import Seasocks.Proof.Bodies
import Seasocks.Proof.Responses

/-!
# The limit of the input buffer

Each state has its own limit, which is kept as long as every read finds a connection that has looked at
what it has and will look at what comes: nothing is looked at while a response is pending, and requests
left over behind a body or a late response are only looked at one a read.
-/

namespace Seasocks.Connection

open Program Relation

variable {w : World} {c : Connection}

/-! ### Limits -/

def inBufLimit (w : World) : Nat :=
  max maxHeadersSize (max maxWebsocketMessageSize w.clientBufferSize)

/-- The input has been looked at, and the next will be. -/
def Listening (c : Connection) : Prop :=
  c.closing = false ∧ ¬ Responding c ∧
    (c.state = .readingHeaders → find (crlf ++ crlf) c.inBuf = none)

/-- What an open connection may have in its buffer after an event. -/
def AtRest (c : Connection) : Prop :=
  match c.state with
  | .readingHeaders => c.inBuf.length ≤ maxHeadersSize
  | .bufferingPostData =>
      ∀ request, c.request = some request → c.inBuf.length < request.contentLength
  | .handlingHixieWebSocket => c.inBuf.length ≤ 2 * readWriteBufferSize
  | _ => c.inBuf.length ≤ readWriteBufferSize

/-- What it may have in its buffer while it looks at it: no more than one read behind what comes first. -/
def AtWork (c : Connection) : Prop :=
  match c.state with
  | .readingHeaders =>
      ∀ i, find (crlf ++ crlf) c.inBuf = some i → c.inBuf.length ≤ i + 4 + readWriteBufferSize
  | .bufferingPostData =>
      ∀ request, c.request = some request →
        c.inBuf.length ≤ request.contentLength + readWriteBufferSize
  | .readingWebSocketKey3 => c.inBuf.length ≤ 2 * readWriteBufferSize
  | .awaitingResponseBegin | .sendingResponseHeaders | .sendingResponseBody =>
      c.inBuf.length ≤ readWriteBufferSize
  | .handlingHixieWebSocket | .handlingHybiWebSocket | .invalid => True

theorem atRest_of_short (hshort : c.inBuf.length ≤ readWriteBufferSize)
    (hstate : c.state ≠ .bufferingPostData) : AtRest c := by
  have hheaders : readWriteBufferSize ≤ maxHeadersSize := by decide
  unfold AtRest
  cases hc : c.state with
  | readingHeaders => exact hshort.trans hheaders
  | bufferingPostData => exact absurd hc hstate
  | handlingHixieWebSocket => exact hshort.trans (by omega)
  | _ => exact hshort

theorem atWork_of_short (hshort : c.inBuf.length ≤ readWriteBufferSize) : AtWork c := by
  unfold AtWork
  cases c.state with
  | readingHeaders =>
      intro i _
      omega
  | bufferingPostData =>
      intro request _
      omega
  | readingWebSocketKey3 => exact hshort.trans (by omega)
  | awaitingResponseBegin | sendingResponseHeaders | sendingResponseBody => exact hshort
  | handlingHixieWebSocket | handlingHybiWebSocket | invalid => exact trivial

theorem AtRest.length_le (h : AtRest c) (hbody : BodyAwaited w c) :
    c.inBuf.length ≤ inBufLimit w := by
  have hheaders : maxHeadersSize ≤ inBufLimit w := Nat.le_max_left _ _
  have hsmall : 2 * readWriteBufferSize ≤ maxHeadersSize := by decide
  unfold AtRest at h
  cases hstate : c.state with
  | readingHeaders =>
      rw [hstate] at h
      exact h.trans hheaders
  | bufferingPostData =>
      rw [hstate] at h
      obtain ⟨request, hrequest, -, -, hbounded⟩ := hbody hstate
      have hclient : w.clientBufferSize ≤ inBufLimit w :=
        (Nat.le_max_right _ _).trans (Nat.le_max_right _ _)
      exact (h request hrequest).le.trans (hbounded.trans hclient)
  | handlingHixieWebSocket =>
      rw [hstate] at h
      exact h.trans (hsmall.trans hheaders)
  | _ =>
      rw [hstate] at h
      have hshort : c.inBuf.length ≤ readWriteBufferSize := h
      omega

/-! ### Receiving -/

theorem find_ne_none_of_isPrefix {needle s : Bytes} {i : Nat} (h : needle <+: s.drop i) :
    find needle s ≠ none := by
  induction s generalizing i with
  | nil =>
      rw [List.drop_nil, List.prefix_nil] at h
      rw [find, if_pos h]
      simp
  | cons a s ih =>
      rw [find]
      split_ifs with hbegins
      · simp
      · cases i with
        | zero => exact absurd (List.isPrefixOf_iff_prefix.mpr h) hbegins
        | succ i =>
            rw [List.drop_succ_cons] at h
            simpa using ih h

/-- What is found behind bytes without it ends behind them. -/
theorem length_lt_of_find_append {needle s t : Bytes} {i : Nat} (hnone : find needle s = none)
    (h : find needle (s ++ t) = some i) : s.length < i + needle.length := by
  by_contra hle
  have hbegins := List.isPrefixOf_iff_prefix.mp (isPrefixOf_of_find h)
  rw [List.drop_append_of_le_length (by omega)] at hbegins
  refine find_ne_none_of_isPrefix (i := i) ?_ hnone
  refine List.prefix_of_prefix_length_le hbegins (List.prefix_append _ _) ?_
  rw [List.length_drop]
  omega

theorem AtRest.receive {received : Bytes} (h : AtRest c) (hlistening : Listening c)
    (hreceived : received.length ≤ readWriteBufferSize) :
    AtWork { c with inBuf := c.inBuf ++ received } := by
  unfold AtRest at h
  unfold AtWork
  dsimp only
  rw [List.length_append]
  cases hstate : c.state with
  | readingHeaders =>
      intro i hfind
      have hbehind := length_lt_of_find_append (hlistening.2.2 hstate) hfind
      rw [show (crlf ++ crlf).length = 4 from rfl] at hbehind
      omega
  | bufferingPostData =>
      rw [hstate] at h
      intro request hrequest
      have hshort := h request hrequest
      omega
  | readingWebSocketKey3 =>
      rw [hstate] at h
      have hshort : c.inBuf.length ≤ readWriteBufferSize := h
      dsimp only
      omega
  | handlingHixieWebSocket | handlingHybiWebSocket | invalid => exact trivial
  | awaitingResponseBegin => exact absurd (Or.inl hstate) hlistening.2.1
  | sendingResponseHeaders => exact absurd (Or.inr (Or.inl hstate)) hlistening.2.1
  | sendingResponseBody => exact absurd (Or.inr (Or.inr hstate)) hlistening.2.1

/-! ### Looking at the input -/

/-- The buffer has not grown, and unless the connection is closing what is left is within the limit. -/
def Limited (c c' : Connection) : Prop :=
  c'.inBuf.length ≤ c.inBuf.length ∧ (c'.closing = false → AtRest c')

theorem limited_of_closing {c' : Connection} (hinBuf : c'.inBuf.length ≤ c.inBuf.length)
    (hclosing : c'.closing = true) : Limited c c' := by
  refine ⟨hinBuf, fun hopen => ?_⟩
  rw [hclosing] at hopen
  cases hopen

theorem closing_of_closed (hclosed : c.closed = true) : c.closing = true :=
  Output.closing_of_closed hclosed

theorem handleHeaders_limited (hepoll : Output.EpollSucceeds w)
    (hnoError : c.out.hadSendError = false) (hstate : c.state = .readingHeaders) (hwork : AtWork c) :
    Ends (handleHeaders w) c
      (fun goOn c' => if goOn then
          c'.inBuf.length < c.inBuf.length ∧ c'.inBuf.length ≤ readWriteBufferSize
        else Limited c c') fun _ _ => True := by
  rw [handleHeaders, ends_bind, ends_get]
  cases hfind : find (crlf ++ crlf) c.inBuf with
  | none =>
      dsimp only
      rw [ends_ite]
      refine ⟨fun _ => ?_, fun hshort => ?_⟩
      · rw [ends_bind, sendUnsupportedError, sendError, ends_bind, ends_get, ends_ite]
        refine ⟨fun _ => trivial, fun _ => ?_⟩
        rw [ends_liftOut]
        exact (Output.sendError_closing _ _ hepoll hnoError).mono fun _ _ hclosing =>
          limited_of_closing (Nat.le_refl _) hclosing
      · refine ⟨Nat.le_refl _, fun _ => ?_⟩
        rw [AtRest, hstate]
        exact Nat.le_of_not_lt hshort
  | some i =>
      have hlength := length_of_find hfind (by decide)
      rw [show (crlf ++ crlf).length = 4 from rfl] at hlength
      rw [AtWork, hstate] at hwork
      have hbehind := hwork i hfind
      simp only [record, ends_bind, ends_modify]
      refine Ends.mono (processHeaders_input hstate (justTaken_concat rfl)) ?_ fun _ _ => id
      rintro accepted c₁ ⟨-, memory, hmemory, hinBuf⟩
      have hsame : c₁.inBuf.length = c.inBuf.length := by
        rw [hinBuf, List.length_append, hmemory, List.length_take, List.length_drop]
        dsimp only
        omega
      simp only [ends_ite, ends_bind, ends_modify, ends_pure]
      refine ⟨fun _ => ?_, fun _ => ?_⟩
      · rw [if_pos trivial, List.length_drop]
        omega
      · refine (closeInternal_sameInput c₁).mono (fun _ c₂ hclose => ?_) fun _ _ => False.elim
        refine limited_of_closing ?_ (closing_of_closed hclose.2)
        rw [hclose.1.1, hsame]

theorem handleBufferingPostData_limited (hstate : c.state = .bufferingPostData)
    (hbody : BodyAwaited w c) (hwork : AtWork c) :
    Ends (handleBufferingPostData w) c (fun _ c' => Limited c c') fun _ _ => True := by
  obtain ⟨request, hrequest, hcontent, -, -⟩ := hbody hstate
  rw [AtWork, hstate] at hwork
  have hbehind := hwork request hrequest
  rw [handleBufferingPostData, ends_bind, ends_get]
  refine theRequest_bind_ends fun request' hrequest' => ?_
  obtain rfl : request = request' := by simpa [hrequest] using hrequest'
  by_cases hlength : request.contentLength ≤ c.inBuf.length
  · rw [PageRequest.consumeContent_of_le hcontent hlength]
    simp only [record, ends_bind, ends_modify]
    have hanswers := handlePageRequest_answers (w := w)
      (c := { c with
        state := .readingHeaders
        request := some { request with content := c.inBuf.take request.contentLength }
        inBuf := c.inBuf.drop request.contentLength
        calls := c.calls ++ [⟨.content (c.inBuf.take request.contentLength), c.out⟩] })
      rfl (justTaken_concat rfl)
    refine Ends.mono ((sameInput_of_answers hanswers).and (not_buffering_of_answers hanswers (by simp)))
      ?_ fun _ _ _ => trivial
    rintro accepted c₁ ⟨hinput, hstate₁⟩
    have hinBuf : c₁.inBuf.length = c.inBuf.length - request.contentLength := by
      rw [hinput.1, List.length_drop]
    rw [ends_ite]
    constructor
    · intro _
      refine (closeInternal_sameInput c₁).mono (fun _ c₂ hclose => ?_) fun _ _ => False.elim
      refine limited_of_closing ?_ (closing_of_closed hclose.2)
      rw [hclose.1.1, hinBuf]
      omega
    · intro _
      exact ⟨by omega, fun _ => atRest_of_short (by omega) hstate₁⟩
  · rw [PageRequest.consumeContent, if_pos (by omega)]
    refine ⟨Nat.le_refl _, fun _ => ?_⟩
    rw [AtRest, hstate]
    intro request' hrequest'
    rw [hrequest] at hrequest'
    injection hrequest' with hrequest'
    rw [← hrequest']
    omega

/-- A WebSocket connection remains one. -/
theorem Move.webSocket {c' : Connection} (h : Move w c c') (hstate : IsWebSocket c) :
    c'.state = c.state := by
  have other : ∀ {state : State}, c.state = state → state ≠ .handlingHixieWebSocket →
      state ≠ .handlingHybiWebSocket → False := by
    rintro _ rfl hhixie hhybi
    exact hstate.elim hhixie hhybi
  cases h with
  | serve hserve =>
      cases hserve with
      | answer hanswer =>
          cases hanswer with
          | write hwrite =>
              cases hwrite with
              | send hsend => exact Sends.state_eq (ReflTransGen.single hsend)
              | encoding | chunk => rfl
              | headers hreading | body hreading => exact (other hreading (by decide) (by decide)).elim
              | finish hsending =>
                  rcases hsending with h | h
                  · exact (other h (by decide) (by decide)).elim
                  · exact (other h (by decide) (by decide)).elim
          | setHandler | handle | openFile => rfl
          | respond _ hreading | awaitKey hreading | connect hreading =>
              exact (other hreading (by decide) (by decide)).elim
      | initialise | create => rfl
      | buffer hreading => exact (other hreading (by decide) (by decide)).elim
  | content hreading | connect hreading | connectNobody hreading =>
      exact (other hreading (by decide) (by decide)).elim
  | disconnect halive hresponse hhandler hsends hout =>
      have hsent := hsends.state_eq
      exact hsent
  | _ => rfl

theorem Moves.webSocket {c c' : Connection} (h : Moves w c c') (hstate : IsWebSocket c) :
    c'.state = c.state := by
  induction h with
  | refl => rfl
  | tail _ hmove ih =>
      refine (hmove.webSocket ?_).trans ih
      unfold IsWebSocket
      rwa [ih]

theorem closeIfTooLong_limited (c : Connection) :
    Ends closeIfTooLong c
      (fun _ c' => c'.inBuf = c.inBuf ∧ (c'.closing = false → c'.inBuf.length ≤ readWriteBufferSize))
      fun _ _ => False := by
  rw [closeIfTooLong, ends_bind, ends_get, ends_ite]
  constructor
  · intro _
    refine (closeInternal_sameInput c).mono (fun _ c' hclose => ⟨hclose.1.1, fun hopen => ?_⟩) fun _ _ => id
    rw [closing_of_closed hclose.2] at hopen
    cases hopen
  · intro hshort
    exact ⟨rfl, fun _ => Nat.le_of_not_lt hshort⟩

/-- What both routines do once their loop is done. -/
theorem eraseMessages_limited (hstate : IsWebSocket c) (messageEnd : Option Nat) (c' : Connection)
    (hmoves : Moves w c c') :
    Passed c.inBuf 0 c messageEnd c' → Ends (match messageEnd with
      | none => return ()
      | some messageEnd => do
          modify fun c => { c with inBuf := c.inBuf.drop messageEnd }
          closeIfTooLong : ConnM Unit) c' (fun _ c'' => Limited c c'') fun _ _ => True := by
  intro hpassed
  have hsame := hmoves.webSocket hstate
  cases messageEnd with
  | none => exact limited_of_closing (by rw [hpassed.1]) (closing_of_closed hpassed.2.1)
  | some messageEnd =>
      simp only [ends_bind, ends_modify]
      generalize herased : ({ c' with inBuf := _ } : Connection) = c₁
      have hlength : c₁.inBuf.length ≤ c.inBuf.length := by
        rw [← herased, ← hpassed.1, List.length_drop]
        omega
      refine ((closeIfTooLong_limited c₁).and (closeIfTooLong_takes (w := w) c₁)).mono
        (fun _ c₂ h => ⟨by rwa [h.1.1], fun hopen => atRest_of_short (h.1.2 hopen) ?_⟩)
        fun _ _ h => h.1.elim
      have hmoves₁ : Moves w c₁ c₂ := ReflTransGen.mono (fun _ _ => And.left) _ _ h.2
      have hstate₁ : c₁.state = c.state := by rw [← herased, ← hsame]
      rw [hmoves₁.webSocket (by unfold IsWebSocket; rwa [hstate₁]), hstate₁]
      rcases hstate with h | h
      · rw [h]
        decide
      · rw [h]
        decide

theorem handleHixieWebSocket_limited (hstate : c.state = .handlingHixieWebSocket) :
    Ends (handleHixieWebSocket w) c (fun _ c' => Limited c c') fun _ _ => True := by
  rw [handleHixieWebSocket, ends_bind, ends_get, ends_ite, ends_bind]
  refine ⟨fun _ => ?_, fun hempty => ?_⟩
  · refine Ends.mono ((hixieLoop_passed c.inBuf _ 0).and (hixieLoop_takes (w := w) c.inBuf _ 0 hstate)) ?_
      fun _ _ _ => trivial
    intro messageEnd c' h
    have hmoves : Moves w c c' := ReflTransGen.mono (fun _ _ => And.left) _ _ h.2
    exact eraseMessages_limited (Or.inl hstate) messageEnd c' hmoves h.1
  · have hempty : c.inBuf = [] := by simpa using hempty
    refine ⟨Nat.le_refl _, fun _ => atRest_of_short ?_ (by rw [hstate]; decide)⟩
    rw [hempty]
    exact Nat.zero_le _

theorem handleHybiWebSocket_limited (hstate : c.state = .handlingHybiWebSocket) :
    Ends (handleHybiWebSocket w) c (fun _ c' => Limited c c') fun _ _ => True := by
  rw [handleHybiWebSocket, ends_bind, ends_get, ends_ite, ends_bind]
  refine ⟨fun _ => ?_, fun hempty => ?_⟩
  · refine Ends.mono ((hybiLoop_passed c.inBuf _ 0).and (hybiLoop_takes (w := w) c.inBuf _ 0 hstate)) ?_
      fun _ _ _ => trivial
    intro messageEnd c' h
    have hmoves : Moves w c c' := ReflTransGen.mono (fun _ _ => And.left) _ _ h.2
    exact eraseMessages_limited (Or.inr hstate) messageEnd c' hmoves h.1
  · have hempty : c.inBuf = [] := by simpa using hempty
    refine ⟨Nat.le_refl _, fun _ => atRest_of_short ?_ (by rw [hstate]; decide)⟩
    rw [hempty]
    exact Nat.zero_le _

theorem handleWebSocketKey3_limited (hstate : c.state = .readingWebSocketKey3) (hwork : AtWork c) :
    Ends (handleWebSocketKey3 w) c (fun _ c' => Limited c c') fun _ _ => True := by
  rw [AtWork, hstate] at hwork
  have hwork : c.inBuf.length ≤ 2 * readWriteBufferSize := hwork
  rw [handleWebSocketKey3, ends_bind, ends_get, ends_ite]
  refine ⟨fun _ => ?_, fun hshort => ?_⟩
  · refine theRequest_bind_ends fun request _ => ?_
    have limited : ∀ c' : Connection, c'.inBuf = c.inBuf.drop 8 →
        c'.state = .handlingHixieWebSocket → Limited c c' := by
      intro c' hdrop hstate'
      have hlength : c'.inBuf.length ≤ c.inBuf.length := by
        rw [hdrop, List.length_drop]
        omega
      refine ⟨hlength, fun _ => ?_⟩
      rw [AtRest, hstate']
      exact hlength.trans hwork
    simp only [record, ends_bind, ends_modify, ends_liftOut]
    refine After.of_forall fun _ out => ?_
    rw [startHixie]
    simp only [ends_bind, ends_modify, ends_get]
    cases c.webSocketHandler with
    | none =>
        refine limited _ ?_ ?_
        · rfl
        · rfl
    | some handler =>
        refine (callHandler_ends _ _ _).mono (fun _ c' hsends => ?_) fun _ _ => False.elim
        exact limited c' hsends.sameInput.1 hsends.state_eq
  · refine ⟨Nat.le_refl _, fun _ => atRest_of_short ?_ (by rw [hstate]; decide)⟩
    have hsmall : 8 ≤ readWriteBufferSize := by decide
    omega

/-- What stays as it is while the input is looked at. -/
structure Steadfast (w : World) (c : Connection) : Prop where
  sound : Sound c
  alive : c.alive = true
  body : BodyAwaited w c

theorem Steadfast.takes {c c' : Connection} (h : Steadfast w c) (htakes : ReflTransGen (Take w) c c') :
    Steadfast w c' := by
  refine invariant_of_steps (Steadfast w) (fun a b ha htake => ?_) htakes h
  exact ⟨ha.sound.move htake.1, htake.2.1.trans ha.alive, ha.body.move htake.1⟩

theorem handleNewDataFrom_limited (fuel : Nat) (hepoll : Output.EpollSucceeds w)
    (hc : Steadfast w c) (hwork : AtWork c) (hfuel : c.inBuf.length < fuel) :
    Ends (handleNewDataFrom w fuel) c (fun _ c' => Limited c c') fun _ _ => True := by
  induction fuel generalizing c with
  | zero => exact absurd hfuel (Nat.not_lt_zero _)
  | succ fuel ih =>
      rw [handleNewDataFrom, ends_bind, ends_get]
      cases hstate : c.state with
      | readingHeaders =>
          dsimp only
          rw [ends_bind]
          refine ((handleHeaders_limited hepoll (hc.sound.noError hc.alive) hstate hwork).and
            (handleHeaders_takes hstate)).mono (fun goOn c₁ h => ?_) fun _ _ _ => trivial
          cases goOn with
          | true =>
              obtain ⟨hless, hshort⟩ : c₁.inBuf.length < c.inBuf.length ∧
                c₁.inBuf.length ≤ readWriteBufferSize := h.1
              refine Ends.mono (ih (hc.takes h.2) (atWork_of_short hshort) (by omega))
                (fun _ c₂ hlimited => ?_) fun _ _ => id
              exact ⟨hlimited.1.trans hless.le, hlimited.2⟩
          | false => exact h.1
      | readingWebSocketKey3 => exact handleWebSocketKey3_limited hstate hwork
      | handlingHixieWebSocket => exact handleHixieWebSocket_limited hstate
      | handlingHybiWebSocket => exact handleHybiWebSocket_limited hstate
      | bufferingPostData => exact handleBufferingPostData_limited hstate hc.body hwork
      | awaitingResponseBegin | sendingResponseHeaders | sendingResponseBody =>
          rw [AtWork, hstate] at hwork
          exact ⟨Nat.le_refl _, fun _ => atRest_of_short hwork (by rw [hstate]; decide)⟩
      | invalid => exact trivial

/-! ### Runs -/

theorem Sends.closing {c c' : Connection} (h : Sends w c c') (hclosing : c.closing = true) :
    c'.closing = true := by
  obtain ⟨out, calls, rfl, hout, -⟩ := h.frame
  exact invariant_of_steps (fun o => o.closing = true)
    (fun _ _ ho hstep => Output.OpStep.closing hstep ho) hout hclosing

/-- What is left in the buffer is within the limit. -/
structure Kept (w : World) (c : Connection) : Prop where
  sound : Sound c
  body : BodyAwaited w c
  bounded : c.inBuf.length ≤ inBufLimit w + readWriteBufferSize
  atRest : c.closing = false → AtRest c

/-- Responses move between states whose limits are the same, and back to one whose limit is wider. -/
theorem Kept.write {c' : Connection} (h : Kept w c) (hstep : WriteStep w c c') : Kept w c' := by
  have hmove : Move w c c' := Move.serve (Serve.answer (Answer.write hstep))
  have responded : Responding c → c'.closing = c.closing → c'.inBuf = c.inBuf →
      c'.state ≠ .bufferingPostData → Kept w c' := by
    intro hresponding hclosing hinBuf hstate
    refine ⟨h.sound.move hmove, h.body.move hmove, by rw [hinBuf]; exact h.bounded, fun hopen => ?_⟩
    refine atRest_of_short ?_ hstate
    have hrest := h.atRest (hclosing ▸ hopen)
    unfold AtRest at hrest
    rw [hinBuf]
    rcases hresponding with h | h | h
    all_goals
      rw [h] at hrest
      exact hrest
  cases hstep with
  | send hsend =>
      have hsends : Sends w c c' := ReflTransGen.single hsend
      refine ⟨h.sound.move hmove, h.body.move hmove, by rw [hsends.sameInput.1]; exact h.bounded, ?_⟩
      intro hopen
      have hrest := h.atRest (by
        by_contra hclosing
        rw [hsends.closing (by simpa using hclosing)] at hopen
        cases hopen)
      obtain ⟨out, calls, rfl, -⟩ := hsends.frame
      exact hrest
  | headers hstate => exact responded (Or.inl hstate) rfl rfl (by simp)
  | encoding encoding hstate => exact responded (Or.inr (Or.inl hstate)) rfl rfl (by simp [hstate])
  | body hstate => exact responded (Or.inr (Or.inl hstate)) rfl rfl (by simp)
  | chunk chunk hstate =>
      refine responded (Or.inr hstate) rfl rfl ?_
      rcases hstate with hstate | hstate
      · simp [hstate]
      · simp [hstate]
  | finish hstate => exact responded (Or.inr hstate) rfl rfl (by simp)

theorem kept_of_writes {m : ConnM Unit} (h : Kept w c) (hwrites : Steps (WriteStep w) Thrown m c) :
    Ends m c (fun _ c' => Kept w c') fun _ _ => True :=
  Ends.mono hwrites
    (fun _ _ hsteps => invariant_of_steps (Kept w) (fun _ _ => Kept.write) hsteps h)
    fun _ _ _ => trivial

theorem kept_of_closed {c' : Connection} (h : Kept w c) (hmoves : Moves w c c')
    (hbounded : c'.inBuf.length ≤ inBufLimit w + readWriteBufferSize) (hclosed : c'.closed = true) :
    Kept w c' := by
  refine ⟨invariant_of_steps Sound (fun _ _ => Sound.move) hmoves h.sound,
    bodyAwaited_of_steps hmoves h.body, hbounded, fun hopen => ?_⟩
  rw [closing_of_closed hclosed] at hopen
  cases hopen

/-- Every read succeeds, and finds a connection that is closed already or has looked at its input. -/
def FindsListening (event : Event) (c : Connection) : Prop :=
  match event with
  | .readable (.data _) => c.closed = true ∨ Listening c
  | .readable .endOfStream => c.closed = true ∨ c.closing = false
  | .readable .error => c.closed = true
  | _ => True

theorem handleDataReadyForRead_kept (result : ReadResult) (hepoll : Output.EpollSucceeds w)
    (halive : c.alive = true) (hc : Kept w c) (hread : FindsListening (.readable result) c) :
    Ends (handleDataReadyForRead w result) c (fun _ c' => Kept w c') fun _ _ => True := by
  have htakes := handleDataReadyForRead_takes (w := w) result c
  unfold Steps at htakes
  rw [handleDataReadyForRead, ends_bind, ends_get, ends_ite] at htakes ⊢
  refine ⟨fun hopen => ?_, fun _ => hc⟩
  have hmoves := htakes.1 hopen
  have hopen : ¬ c.closed = true := by simpa using hopen
  have hlength : c.closing = false → c.inBuf.length ≤ inBufLimit w := fun hclosing =>
    (hc.atRest hclosing).length_le hc.body
  cases result with
  | error => exact absurd hread hopen
  | endOfStream =>
      have hlistening : c.closing = false := Or.resolve_left hread hopen
      simp only [ends_bind, ends_set] at hmoves ⊢
      refine ((closeInternal_sameInput _).and hmoves).mono (fun _ c' h => ?_) fun _ _ h => h.1.elim
      refine kept_of_closed hc (ReflTransGen.mono (fun _ _ => And.left) _ _ h.2) ?_ h.1.2
      rw [h.1.1.1, List.length_append, List.length_replicate]
      exact Nat.add_le_add_right (hlength hlistening) _
  | data received =>
      have hlistening : Listening c := Or.resolve_left hread hopen
      have hreceived := received.property.2
      simp only [ends_bind, ends_set, handleNewData, ends_get] at hmoves ⊢
      have hsteadfast : Steadfast w
          { c with
            bytesReceived := c.bytesReceived + received.val.length
            inBuf := c.inBuf ++ received.val } :=
        ⟨⟨hc.sound.noError, hc.sound.responding⟩, halive, hc.body⟩
      have hwork := (hc.atRest hlistening.1).receive hlistening hreceived
      refine ((handleNewDataFrom_limited _ hepoll hsteadfast hwork (Nat.lt_succ_self _)).and
        hmoves).mono (fun _ c' h => ?_) fun _ _ _ => trivial
      have hsteps : Moves w c c' := ReflTransGen.mono (fun _ _ => And.left) _ _ h.2
      refine ⟨invariant_of_steps Sound (fun _ _ => Sound.move) hsteps hc.sound,
        bodyAwaited_of_steps hsteps hc.body, ?_, h.1.2⟩
      have hshrunk := h.1.1
      rw [List.length_append] at hshrunk
      have hsmall := hlength hlistening.1
      omega

theorem step_kept (event : Event) (hepoll : Output.EpollSucceeds w) (hc : Kept w c)
    (hread : FindsListening event c) :
    Ends (step w event) c (fun _ c' => Kept w c') fun _ _ => True := by
  have hmoves := step_moves (w := w) event c
  unfold Steps at hmoves
  rw [step, ends_bind, ends_get] at hmoves ⊢
  cases event with
  | readable result =>
      dsimp only
      rw [ends_ite]
      exact ⟨fun halive => handleDataReadyForRead_kept result hepoll halive hc hread, fun _ => trivial⟩
  | writable =>
      dsimp only
      rw [ends_ite]
      refine ⟨fun _ => kept_of_writes hc ?_, fun _ => trivial⟩
      exact liftOut_writes Output.handleDataReadyForWrite_runs c
  | writer call =>
      dsimp only
      rw [ends_ite, ends_ite]
      exact ⟨fun _ => ⟨fun _ => kept_of_writes hc (writerCall_writes call c), fun _ => trivial⟩, fun _ => hc⟩
  | socket call =>
      dsimp only
      rw [ends_ite]
      refine ⟨fun _ => kept_of_writes hc ?_, fun _ => trivial⟩
      exact ((wsCall_sends call).steps c).mono fun _ _ => WriteStep.send
  | destroy =>
      dsimp only at hmoves ⊢
      rw [ends_ite] at hmoves ⊢
      refine ⟨fun halive => ?_, fun _ => trivial⟩
      refine ((destroy_closes c).and (hmoves.1 halive)).mono (fun _ c' h => ?_) fun _ _ h => h.1.elim
      refine kept_of_closed hc h.2 ?_ h.1.2
      rw [h.1.1.1]
      exact hc.bounded

/-- **A bounded input buffer.** In every run without a failing `epoll_ctl` and without an escaping
exception in which every read finds a connection that is listening, the buffer stays within the limit
for requests, messages and bodies, and one read more. -/
theorem run_inBuf_le {events : List Event} (h : run w events fresh = .ok c)
    (hepoll : Output.EpollSucceeds w) (hranges : RangesAccepted c.calls)
    (hreads : Throughout w FindsListening events fresh) :
    c.inBuf.length ≤ inBufLimit w + readWriteBufferSize := by
  have hnone := (escapes_eq_nil_iff h List.IsChain.nil).mpr hranges
  have hfresh : Kept w fresh := by
    refine ⟨⟨fun _ => rfl, fun hsome => ?_⟩, fun hbuffering => ?_, ?_, ?_⟩
    · cases hsome
    · cases hbuffering
    · exact Nat.zero_le _
    · exact fun _ => Nat.zero_le _
  exact (run_throughout (Kept w) (fun event c hc hread => step_kept event hepoll hc hread) h hfresh hreads
    hnone).bounded

/-- The beginning of a request. -/
theorem run_inBuf_le_partial :
    ∃ c, run World.plain [.readable (.data ⟨ascii "GET ", by decide⟩)] fresh = .ok c ∧
      c.inBuf = ascii "GET " ∧ c.inBuf.length ≤ inBufLimit World.plain + readWriteBufferSize := by
  have hrun : (do
      let c ← run World.plain [.readable (.data ⟨ascii "GET ", by decide⟩)] fresh
      return decide (c.inBuf = ascii "GET " ∧ c.calls = [])) = (.ok true : Except Fault Bool) := by
    decide +kernel
  obtain ⟨c, hc, hrun⟩ := ok_of_bind_eq_ok hrun
  injection hrun with hrun
  obtain ⟨hinBuf, hcalls⟩ := of_decide_eq_true hrun
  refine ⟨c, hc, hinBuf, run_inBuf_le hc (fun _ _ => rfl) ?_ fun before event after c' hsplit hbefore => ?_⟩
  · rw [hcalls]
    exact List.IsChain.nil
  · rcases List.singleton_eq_append_iff.mp hsplit with ⟨rfl, hevent⟩ | ⟨-, hevent⟩
    · injection hevent with hevent
      injection hbefore with hbefore
      rw [hevent, ← hbefore]
      exact Or.inr ⟨rfl, not_responding rfl (by decide), fun _ => rfl⟩
    · cases hevent

/-- Whatever arrives while a response is pending stays in the buffer. -/
theorem run_pending
    (received : { bytes : Bytes // bytes ≠ [] ∧ bytes.length ≤ readWriteBufferSize }) (count : Nat)
    (halive : c.alive = true) (hopen : c.closed = false) (hstate : c.state = .awaitingResponseBegin) :
    ∃ c', run w (List.replicate count (.readable (.data received))) c = .ok c' ∧
      c'.inBuf.length = c.inBuf.length + count * received.val.length := by
  induction count generalizing c with
  | zero => exact ⟨c, rfl, by simp⟩
  | succ count ih =>
      obtain ⟨c', hrun, hlength⟩ := ih (c := { c with
        bytesReceived := c.bytesReceived + received.val.length
        inBuf := c.inBuf ++ received.val }) halive hopen hstate
      refine ⟨c', ?_, ?_⟩
      · rw [List.replicate_succ, run_cons_ok, hrun]
        simp [step, handleDataReadyForRead, handleNewData, handleNewDataFrom, EStateM.run_bind, halive,
          hopen, hstate]
      · rw [hlength, List.length_append, Nat.succ_mul]
        omega

/-- A response that stays pending while the client goes on sending. -/
theorem exceeds_limit_of_pending :
    ∃ events c, run (.pages ⟨[]⟩) events fresh = .ok c ∧
      inBufLimit (.pages ⟨[]⟩) + readWriteBufferSize < c.inBuf.length := by
  have hrun : (do
      let c ← run (.pages ⟨[]⟩) [.readable (.data ⟨ascii "GET / HTTP/1.1\r\n\r\n", by decide⟩)] fresh
      return (c.alive, c.closed, c.state)) = .ok (true, false, .awaitingResponseBegin) := by
    decide +kernel
  obtain ⟨c, hc, hrun⟩ := ok_of_bind_eq_ok hrun
  injection hrun with hrun
  obtain ⟨halive, hrest⟩ := Prod.mk.inj hrun
  obtain ⟨hopen, hstate⟩ := Prod.mk.inj hrest
  obtain ⟨c', hrun, hlength⟩ :=
    run_pending (w := .pages ⟨[]⟩) ⟨[0], by decide⟩ (2 ^ 25) halive hopen hstate
  refine ⟨_, c', (run_append hc).trans hrun, ?_⟩
  rw [hlength]
  have hlimit : inBufLimit (.pages ⟨[]⟩) + readWriteBufferSize < 2 ^ 25 := by decide
  simp only [List.length_singleton]
  omega

end Seasocks.Connection
