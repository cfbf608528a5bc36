import Seasocks.Proof.Handshakes

/-!
# Upgrade requests

What `handlePageRequest` makes of a request for a WebSocket: which handshake it comes to, and whether the
origin of the request has a say in it.
-/

namespace Seasocks.Connection

open Program Relation

variable {w : World} {c : Connection}

/-! ### Before a handshake -/

/-- No handshake has been begun. -/
structure NotUpgraded (state : State) : Prop where
  key : state ≠ .readingWebSocketKey3
  hixie : state ≠ .handlingHixieWebSocket
  hybi : state ≠ .handlingHybiWebSocket

theorem notUpgraded_readingHeaders : NotUpgraded .readingHeaders := ⟨by simp, by simp, by simp⟩

/-- The request and the input are as before, and no handshake has been begun. -/
structure Refused (c c' : Connection) : Prop where
  sameRequest : c'.request = c.request
  sameBuffer : c'.inBuf = c.inBuf
  notUpgraded : NotUpgraded c'.state

theorem WriteStep.refused {c' : Connection} (hstep : WriteStep w c c') (h : NotUpgraded c.state) :
    Refused c c' := by
  cases hstep with
  | send hsend =>
      obtain ⟨out, calls, rfl, -⟩ := Sends.frame (ReflTransGen.single hsend)
      exact ⟨rfl, rfl, h⟩
  | encoding | chunk => exact ⟨rfl, rfl, h⟩
  | headers | body | finish => exact ⟨rfl, rfl, ⟨by simp, by simp, by simp⟩⟩

theorem Refused.trans {c' c'' : Connection} (h : Refused c c') (h' : Refused c' c'') : Refused c c'' :=
  ⟨h'.sameRequest.trans h.sameRequest, h'.sameBuffer.trans h.sameBuffer, h'.notUpgraded⟩

theorem Writes.refused {c c' : Connection} (hsteps : Writes w c c') (h : NotUpgraded c.state) :
    Refused c c' := by
  induction hsteps with
  | refl => exact ⟨rfl, rfl, h⟩
  | tail _ hstep ih => exact ih.trans (WriteStep.refused hstep ih.notUpgraded)

theorem Thrown.refused {e : Exn} {c' : Connection} (hthrown : Thrown e c c')
    (h : NotUpgraded c.state) : Refused c c' := by
  cases hthrown <;> exact ⟨rfl, rfl, h⟩

/-- What is only written begins no handshake, even if it throws. -/
theorem refused_of_writes {α : Type} {m : ConnM α} (hwrites : Steps (WriteStep w) Thrown m c)
    (h : NotUpgraded c.state) : Ends m c (fun _ c' => Refused c c') fun _ c' => Refused c c' := by
  refine Ends.mono hwrites (fun _ c' hsteps => Writes.refused hsteps h) ?_
  rintro e c' ⟨c₁, hsteps, hlast⟩
  have hrefused := Writes.refused hsteps h
  exact hrefused.trans (hlast.refused hrefused.notUpgraded)

/-! ### Versions -/

/-- The WebSocket version a request asks for, as the server reads it. -/
def webSocketVersion (request : PageRequest) : Except LogicError Int :=
  stoi (request.getHeader (ascii "Sec-WebSocket-Version"))

/-- A version of the Hybi handshake that the server supports. -/
def AsksForHybi (request : PageRequest) : Prop :=
  webSocketVersion request = .ok 8 ∨ webSocketVersion request = .ok 13

/-- The request and the input are as before, and the state is that of the handshake asked for, if there
is one. -/
structure Upgraded (request : PageRequest) (c c' : Connection) : Prop where
  sameRequest : c'.request = c.request
  sameBuffer : c'.inBuf = c.inBuf
  hixie : c'.state ≠ .handlingHixieWebSocket
  key : c'.state = .readingWebSocketKey3 → webSocketVersion request = .ok 0
  hybi : c'.state = .handlingHybiWebSocket → AsksForHybi request

theorem Refused.upgraded {c' : Connection} (h : Refused c c') (request : PageRequest) :
    Upgraded request c c' where
  sameRequest := h.sameRequest
  sameBuffer := h.sameBuffer
  hixie := h.notUpgraded.hixie
  key := fun hkey => absurd hkey h.notUpgraded.key
  hybi := fun hhybi => absurd hhybi h.notUpgraded.hybi

/-- The handshake of a supported version takes the connection to its state. -/
theorem handleHybiHandshake_ends {version : Int} {webSocketKey : Bytes} {request : PageRequest}
    (hrequest : c.request = some request) (hversion : version = 8 ∨ version = 13) :
    Ends (handleHybiHandshake w version webSocketKey) c (fun _ c' =>
      c'.request = some request ∧ c'.inBuf = c.inBuf ∧ c'.state = .handlingHybiWebSocket)
      fun _ _ => False := by
  rw [handleHybiHandshake, if_neg (by omega), ends_bind, theRequest, ends_bind, ends_get, hrequest,
    ends_pure, ends_bind, ends_get, ends_bind, ends_liftOut]
  refine After.of_forall fun _ out => ?_
  cases hhandler : c.webSocketHandler with
  | none =>
      dsimp only
      simp only [ends_bind, ends_pure, setState, ends_modify]
      exact ⟨hrequest, trivial, trivial⟩
  | some handler =>
      dsimp only
      rw [ends_bind]
      refine (callHandler_ends _ _ _).mono (fun _ c' hsends => ?_) fun _ _ => id
      obtain ⟨out', calls, rfl, -⟩ := hsends.frame
      simp only [ends_bind, ends_pure, setState, ends_modify]
      exact ⟨hrequest, trivial, trivial⟩

theorem handleUpgrade_upgraded {request : PageRequest} (hrequest : c.request = some request)
    (h : NotUpgraded c.state) :
    Ends (handleUpgrade w request) c (fun _ c' => Upgraded request c c')
      fun _ c' => Upgraded request c c' := by
  let c₁ : Connection := { c with webSocketHandler := w.getWebSocketHandler request.requestUri }
  have refused : ∀ {m : ConnM Bool}, Steps (WriteStep w) Thrown m c₁ →
      Ends m c₁ (fun _ c' => Upgraded request c c') fun _ c' => Upgraded request c c' := by
    intro m hwrites
    have same : ∀ c', Refused c₁ c' → Upgraded request c c' := by
      intro c' hrefused
      have hsame : Refused c c' :=
        ⟨hrefused.sameRequest, hrefused.sameBuffer, hrefused.notUpgraded⟩
      exact hsame.upgraded request
    exact (refused_of_writes hwrites h).mono (fun _ => same) fun _ => same
  rw [handleUpgrade, ends_bind, ends_modify]
  cases hversion : stoi (request.getHeader (ascii "Sec-WebSocket-Version")) with
  | error e => exact refused (sendError_writes _ _ _)
  | ok version =>
      simp only [ends_ite]
      refine ⟨fun _ => refused (send404_writes _), fun _ => ⟨fun hzero => ?_, fun _ => ?_⟩⟩
      · simp only [setState, ends_bind, ends_modify, ends_pure]
        exact ⟨rfl, rfl, by simp, fun _ => by rw [webSocketVersion, hversion, hzero], by simp⟩
      · by_cases hsupported : version = 8 ∨ version = 13
        · refine (handleHybiHandshake_ends (c := c₁) hrequest hsupported).mono ?_ fun _ _ => False.elim
          rintro accepted c' ⟨hsame, hinBuf, hstate⟩
          refine ⟨hsame.trans hrequest.symm, hinBuf, by simp [hstate], by simp [hstate], fun _ => ?_⟩
          rw [AsksForHybi, webSocketVersion, hversion]
          exact hsupported.imp (fun h => by rw [h]) fun h => by rw [h]
        · rw [handleHybiHandshake, if_pos (by omega)]
          exact refused (sendError_writes _ _ _)

/-- A request with a supported Hybi version is accepted where its endpoint is registered. -/
theorem handleUpgrade_accepts {request : PageRequest} (hrequest : c.request = some request)
    (hhandler : (w.getWebSocketHandler request.requestUri).isSome = true) (hasks : AsksForHybi request) :
    Ends (handleUpgrade w request) c (fun _ c' => c'.state = .handlingHybiWebSocket)
      fun _ _ => False := by
  obtain ⟨version, hversion, hsupported⟩ : ∃ version, webSocketVersion request = .ok version ∧
      (version = 8 ∨ version = 13) := by
    rcases hasks with h | h
    · exact ⟨8, h, Or.inl rfl⟩
    · exact ⟨13, h, Or.inr rfl⟩
  rw [webSocketVersion] at hversion
  obtain ⟨handler, hhandler⟩ := Option.isSome_iff_exists.mp hhandler
  rw [handleUpgrade, ends_bind, ends_modify, hversion, hhandler]
  dsimp only
  rw [if_neg (by simp), if_neg (by omega)]
  exact (handleHybiHandshake_ends (c := { c with webSocketHandler := some handler }) hrequest
    hsupported).mono (fun _ _ h => h.2.2) fun _ _ => id

/-- Whatever the page handlers do with a request for a WebSocket, it comes to the handshake it asks for or
to none, and to none if they answer it. -/
theorem handlePageRequest_upgraded {request : PageRequest} (hrequest : c.request = some request)
    (hverb : request.verb = .webSocket) (h : NotUpgraded c.state) :
    Ends (handlePageRequest w) c
      (fun _ c' => Upgraded request c c' ∧ (w.handle c.calls request ≠ .unhandled → Refused c c'))
      fun _ c' => Upgraded request c c' ∧ (w.handle c.calls request ≠ .unhandled → Refused c c') := by
  let c₁ : Connection := { c with calls := c.calls ++ [⟨.handle request, c.out⟩] }
  have refused : ∀ {m : ConnM Bool} {p : Prop},
      Ends m c₁ (fun _ c' => Refused c c') (fun _ c' => Refused c c') →
      Ends m c₁ (fun _ c' => Upgraded request c c' ∧ (p → Refused c c'))
        fun _ c' => Upgraded request c c' ∧ (p → Refused c c') := fun hends =>
    hends.mono (fun _ _ hrefused => ⟨hrefused.upgraded request, fun _ => hrefused⟩)
      fun _ _ hrefused => ⟨hrefused.upgraded request, fun _ => hrefused⟩
  rw [handlePageRequest, ends_bind, theRequest, ends_bind, ends_get, hrequest, ends_pure, ends_bind,
    ends_get]
  dsimp only
  rw [record, ends_bind, ends_modify]
  generalize w.handle c.calls request = outcome
  have wrote : ∀ {m : ConnM Bool} {c₂ : Connection}, c₂.request = c.request → c₂.inBuf = c.inBuf →
      NotUpgraded c₂.state → Steps (WriteStep w) Thrown m c₂ →
      Ends m c₂ (fun _ c' => Refused c c') fun _ c' => Refused c c' := by
    intro m c₂ hsame hbuffer h₂ hwrites
    have same : ∀ c', Refused c₂ c' → Refused c c' := fun c' hrefused =>
      ⟨hrefused.sameRequest.trans hsame, hrefused.sameBuffer.trans hbuffer, hrefused.notUpgraded⟩
    exact (refused_of_writes hwrites h₂).mono (fun _ => same) fun _ => same
  cases outcome with
  | throws what => exact refused (wrote rfl rfl h (sendError_writes _ _ _))
  | throwsUnknown => exact refused (wrote rfl rfl h (sendError_writes _ _ _))
  | response response =>
      refine refused ?_
      dsimp only [sendResponse]
      rw [handleResponse, ends_bind, ends_get, ends_ite]
      refine ⟨fun _ => ⟨rfl, rfl, h⟩, fun _ => ?_⟩
      rw [ends_bind, ends_modify]
      refine wrote rfl rfl ⟨by simp, by simp, by simp⟩ ?_
      exact (Steps.forM writerCall_writes _).bind fun _ _ _ => Steps.pure _
  | unhandled =>
      dsimp only
      rw [if_pos hverb]
      refine (handleUpgrade_upgraded (c := c₁) hrequest h).mono ?_ ?_
      · exact fun _ c' hc' => ⟨⟨hc'.sameRequest, hc'.sameBuffer, hc'.hixie, hc'.key, hc'.hybi⟩,
          fun hne => absurd rfl hne⟩
      · exact fun _ c' hc' => ⟨⟨hc'.sameRequest, hc'.sameBuffer, hc'.hixie, hc'.key, hc'.hybi⟩,
          fun hne => absurd rfl hne⟩

/-! ### Origins -/

/-- The host of an origin, which is a scheme and a host. -/
def originHost (origin : Bytes) : Bytes :=
  match find (ascii "://") origin with
  | some i => origin.drop (i + 3)
  | none => origin

/-- A request from another origin for an endpoint that does not allow it. -/
structure CrossOrigin (w : World) (request : PageRequest) : Prop where
  registered : ∃ handler, w.endpointEntry request.requestUri = some ⟨some handler, false⟩
  origin : request.hasHeader (ascii "Origin") = true
  foreign : originHost (request.getHeader (ascii "Origin")) ≠ request.getHeader (ascii "Host")

/-- No line of the Hixie handshake names an origin other than the server's own. -/
def NamesOwnOrigin (w : World) (request : PageRequest) (webSocketHandler : Option HandlerId) : Prop :=
  ∀ digest o, After (Output.hixieHandshake w request webSocketHandler digest) o fun _ o' =>
    ∃ log, Output.Emits
        (renderLines (Output.hixieLines w request webSocketHandler (w.now log)) ++ crlf ++ digest) o o' ∧
      ∀ line ∈ Output.hixieLines w request webSocketHandler (w.now log), Output.originField <+: line →
        line = Output.originField ++ (ascii "http://" ++ request.getHeader (ascii "Host"))

/-- The upgrade is refused, or the response to it names only the server's own origin. -/
def OriginRespected (w : World) (request : PageRequest) (c : Connection) : Prop :=
  c.state ≠ .handlingHybiWebSocket ∧
    (c.state = .readingWebSocketKey3 →
      c.request = some request ∧ NamesOwnOrigin w request c.webSocketHandler)

theorem CrossOrigin.not_allowed {request : PageRequest} (h : CrossOrigin w request) :
    w.isCrossOriginAllowed request.requestUri = false := by
  obtain ⟨handler, hentry⟩ := h.registered
  rw [World.isCrossOriginAllowed, hentry]
  rfl

theorem CrossOrigin.has_handler {request : PageRequest} (h : CrossOrigin w request) :
    (w.getWebSocketHandler request.requestUri).isSome = true := by
  obtain ⟨handler, hentry⟩ := h.registered
  rw [World.getWebSocketHandler, hentry]
  rfl

/-- The endpoint is consulted for the Hixie handshake: of the lines, only one names an origin. -/
theorem CrossOrigin.namesOwnOrigin {request : PageRequest} (h : CrossOrigin w request)
    (webSocketHandler : Option HandlerId) : NamesOwnOrigin w request webSocketHandler := by
  have other : ∀ {line : Bytes}, Output.originField.isPrefixOf line = false →
      ¬ Output.originField <+: line := by
    intro line hline hbegins
    rw [List.isPrefixOf_iff_prefix.mpr hbegins] at hline
    cases hline
  have hcommon : ∀ date, ∀ line ∈ Output.commonLines w .webSocketProtocolHandshake date ++
      Output.upgradeLines, ¬ Output.originField <+: line := by
    intro date line hline
    simp only [Output.commonLines, Output.upgradeLines, List.cons_append, List.nil_append,
      List.mem_cons, List.not_mem_nil, or_false] at hline
    rcases hline with rfl | rfl | rfl | rfl | rfl | rfl <;> exact other rfl
  have hprotocol : ∀ line ∈ Output.protocolLines w request webSocketHandler,
      ¬ Output.originField <+: line := by
    intro line hline
    unfold Output.protocolLines at hline
    cases webSocketHandler with
    | none => cases hline
    | some handler =>
        dsimp only at hline
        split_ifs at hline with hheader hchoice
        · rw [List.mem_singleton.mp hline]
          exact other rfl
        · cases hline
        · cases hline
  intro digest o
  refine (Output.hixieHandshake_emits request webSocketHandler digest).mono fun _ o' hemits => ?_
  obtain ⟨log, hemits⟩ := hemits
  refine ⟨log, hemits, fun line hline horigin => ?_⟩
  rw [Output.hixieLines, List.mem_append, List.mem_append] at hline
  rcases hline with (hline | hline) | hline
  · exact absurd horigin (hcommon _ line hline)
  · unfold Output.originLines at hline
    rw [h.not_allowed] at hline
    dsimp only at hline
    rw [Bool.and_false, if_neg Bool.false_ne_true, List.nil_append] at hline
    split_ifs at hline with hhost hforeign
    · rcases List.mem_append.mp hline with hline | hline
      · rw [List.mem_singleton.mp hline]
        rfl
      · rw [List.mem_singleton.mp hline] at horigin
        exact absurd horigin (other rfl)
    · exact absurd rfl hforeign
    · cases hline
  · exact absurd horigin (hprotocol line hline)

/-- **Cross-origin requests.** A request from another origin, for an endpoint that does not allow it, is
refused or answered with the server's own origin exactly if a page handler answers it or it does not ask
for a Hybi handshake, which never looks at the origin. -/
theorem handlePageRequest_originRespected_iff (w : World) {c : Connection} {request : PageRequest}
    (hstate : c.state = .readingHeaders) (hrequest : c.request = some request)
    (hverb : request.verb = .webSocket) (hcross : CrossOrigin w request) :
    Ends (handlePageRequest w) c (fun _ c' => OriginRespected w request c')
        (fun _ c' => OriginRespected w request c') ↔
      w.handle c.calls request ≠ .unhandled ∨ ¬ AsksForHybi request := by
  have hupgraded := handlePageRequest_upgraded (w := w) hrequest hverb
    (hstate ▸ notUpgraded_readingHeaders)
  constructor
  · intro hrespected
    by_contra hnot
    rw [not_or, not_not, not_not] at hnot
    obtain ⟨hhandle, hasks⟩ := hnot
    have haccepts := handleUpgrade_accepts (w := w)
      (c := { c with calls := c.calls ++ [⟨.handle request, c.out⟩] }) hrequest hcross.has_handler hasks
    rw [handlePageRequest, ends_bind, theRequest, ends_bind, ends_get, hrequest, ends_pure, ends_bind,
      ends_get] at hrespected
    dsimp only at hrespected
    rw [record, ends_bind, ends_modify, hhandle] at hrespected
    dsimp only at hrespected
    rw [if_pos hverb] at hrespected
    refine Ends.const ((hrespected.and haccepts).mono ?_ ?_)
    · exact fun _ _ h => h.1.1 h.2
    · exact fun _ _ h => h.2
  · intro hcond
    have respected : ∀ c' : Connection,
        Upgraded request c c' ∧ (w.handle c.calls request ≠ .unhandled → Refused c c') →
        OriginRespected w request c' := by
      rintro c' ⟨hup, hrefused⟩
      refine ⟨fun hhybi => ?_, fun _ => ⟨hup.sameRequest.trans hrequest, hcross.namesOwnOrigin _⟩⟩
      rcases hcond with hhandle | hasks
      · exact (hrefused hhandle).notUpgraded.hybi hhybi
      · exact hasks (hup.hybi hhybi)
    exact hupgraded.mono (fun _ => respected) fun _ => respected

/-- A foreign request for the handshake that looks at the origin. -/
theorem handlePageRequest_originRespected_iff_hixie :
    let request : PageRequest :=
      { requestUri := ascii "/chat"
        verb := .webSocket
        headers := headersOf HeaderMap.empty
          [(ascii "Host", ascii "a.example"), (ascii "Origin", ascii "http://b.example"),
            (ascii "Sec-WebSocket-Version", ascii "0")]
        contentLength := 0
        content := [] }
    Ends (handlePageRequest World.chat) { fresh with request := some request }
      (fun _ c' => OriginRespected World.chat request c')
      fun _ c' => OriginRespected World.chat request c' := by
  intro request
  have hcross : CrossOrigin World.chat request :=
    ⟨⟨1, by decide +kernel⟩, by decide +kernel, by decide +kernel⟩
  have hasks : ¬ AsksForHybi request := by
    rw [AsksForHybi, show webSocketVersion request = .ok 0 by decide +kernel]
    decide
  exact (handlePageRequest_originRespected_iff World.chat rfl rfl rfl hcross).mpr (Or.inr hasks)

/-- The foreign request of a modern browser. -/
theorem not_originRespected_of_hybi :
    ∃ c request, run World.chat
        [.readable (.data ⟨ascii "GET /chat HTTP/1.1\r\nHost: a.example\r\nOrigin: http://b.example\r\n"
          ++ ascii "Connection: Upgrade\r\nUpgrade: websocket\r\nSec-WebSocket-Version: 13\r\n\r\n",
          by decide +kernel⟩)] fresh = .ok c ∧
      c.request = some request ∧ request.verb = .webSocket ∧ CrossOrigin World.chat request ∧
      ¬ OriginRespected World.chat request c := by
  have hrun : (do
      let c ← run World.chat
        [.readable (.data ⟨ascii "GET /chat HTTP/1.1\r\nHost: a.example\r\nOrigin: http://b.example\r\n"
          ++ ascii "Connection: Upgrade\r\nUpgrade: websocket\r\nSec-WebSocket-Version: 13\r\n\r\n",
          by decide +kernel⟩)] fresh
      return decide (c.state = .handlingHybiWebSocket ∧
        c.request.map PageRequest.verb = some .webSocket ∧
        World.chat.endpointEntry c.getRequestUri = some ⟨some 1, false⟩ ∧
        (c.request.map fun request => request.hasHeader (ascii "Origin")) = some true ∧
        originHost (c.getHeader (ascii "Origin")) ≠ c.getHeader (ascii "Host")))
      = (.ok true : Except Fault Bool) := by
    decide +kernel
  obtain ⟨c, hc, hrun⟩ := ok_of_bind_eq_ok hrun
  injection hrun with hrun
  obtain ⟨hstate, hverb, hentry, horigin, hforeign⟩ := of_decide_eq_true hrun
  obtain ⟨request, hrequest, hverb⟩ := Option.map_eq_some_iff.mp hverb
  rw [getRequestUri, hrequest] at hentry
  rw [getHeader, getHeader, hrequest] at hforeign
  rw [hrequest] at horigin
  injection horigin with horigin
  exact ⟨c, request, hc, hrequest, hverb, ⟨⟨1, hentry⟩, horigin, hforeign⟩, fun h => h.1 hstate⟩

end Seasocks.Connection
