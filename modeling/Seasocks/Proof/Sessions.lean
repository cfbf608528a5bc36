import Seasocks.Proof.Hub
import Seasocks.Proof.Openings

/-!
# Sessions

A client that opens a WebSocket reads, from the bytes of a connection alone, a response it goes on with and
the frames behind it.
-/

namespace Seasocks.Hub

open Program Relation WebSocketFrame HybiPacketDecoder Connection

variable {σ : Type} {worlds : Nat → World} {handlers : Handlers σ} {s₀ : σ} {h : Hub σ}

/-- What an open connection has emitted since its handler was asked for. -/
theorem emitted_of_opening {w : World} {request : PageRequest} {handler : HandlerId} {prior : Output}
    {calls : List Entry} {uses : List WsCall} {messages : List HybiPacketDecoder.Message} {c₀ c : Connection}
    (hopening : Opening w request handler prior c₀.out) (htalk : Talks calls uses messages c₀ c)
    (hunfailed : Output.Unfailed c.out) (hopen : c.closing = false) :
    ∃ response log, response = renderLines (Output.hybiLines w request (some handler)
      (request.getHeader (ascii "Sec-WebSocket-Key")) false (w.now log)) ++ crlf ∧
      Output.emitted c₀.out = Output.emitted prior ++ response := by
  obtain ⟨log, events, hlog, hemits⟩ := hopening.emits
  obtain ⟨more, hmore, -⟩ := htalk.framed
  have hprior : prior.closing = false := by
    by_contra hclosing
    have hclosed := (htalk.silent (hopening.closing (Bool.eq_true_of_not_eq_false hclosing))).2
    rw [hopen] at hclosed
    cases hclosed
  refine ⟨_, log, rfl, (hemits hprior hopening.noError fun event hevent => hunfailed hopen event ?_).2.2⟩
  rw [hmore, hlog]
  exact List.mem_append_left _ (List.mem_append_right _ hevent)

/-- On every connection that is open, upgraded and without compression, whatever happened before: the
handler was connected for a request read from a header block of the input. If that is the handshake of a
client, the client reads what it has been sent since as a response it goes on with, and behind it, in order,
what the handlers have sent it and the answers to its pings. -/
theorem run_opened {events : List Event} {connection : Nat} {c : Connection} {hasher : Sha1}
    (hblock : hasher.messageBlock.length = 64) (hsha1 : (worlds connection).sha1 = acceptHash hasher)
    (htexts : PlainTexts (worlds connection)) (hrun : run worlds handlers events (start s₀) = .ok h)
    (hc : h.connections[connection]? = some c) (halive : c.alive = true)
    (hstate : c.state = .handlingHybiWebSocket) (hplain : c.perMessageDeflate = false)
    (hopen : c.closing = false) :
    ∃ (before calls : List Entry) (request : PageRequest) (handler : HandlerId) (prior base : Output)
      (earlier later : List Callback) (joined : Callback) (response : Bytes)
      (messages : List HybiPacketDecoder.Message),
      c.calls = before ++ ⟨.handle request, prior⟩ :: ⟨.onConnect handler, base⟩ :: calls ∧
      ReadFrom before request.requestUri request.headers ∧
      (worlds connection).getWebSocketHandler request.requestUri = some handler ∧
      h.history = earlier ++ joined :: later ∧
      joined = ⟨connection, before ++ [⟨.handle request, prior⟩, ⟨.onConnect handler, base⟩]⟩ ∧
      Output.emitted c.out = Output.emitted prior ++ response ++ wire messages ∧
      speech messages = spoken (Reactor.mailFor connection
        (handlers.replay (joined :: later) (handlers.replay earlier s₀).1).2) ∧
      pongs messages = pings calls ∧
      ∀ client : OpeningHandshake.Client, client.Sends request.headers.find →
        ∃ head, HttpMessage.readHead (response ++ wire messages) = some (head, wire messages) ∧
          client.Accepts head := by
  have hinv := invariant_start.run hrun
  have hregular := hinv.regular connection c hc
  obtain ⟨earlier, later, c₀, handler, calls, messages, hhistory, hnoError, hopened, htalk⟩ :=
    hinv.attends connection c hc halive hstate hplain
  obtain ⟨before, request, prior, hcalls, hopening⟩ := hopened
  obtain ⟨response, log, hresponse, hemitted⟩ := emitted_of_opening hopening htalk hregular.unfailed hopen
  have hlog : c.calls = before ++ ⟨.handle request, prior⟩ :: ⟨.onConnect handler, c₀.out⟩ :: calls := by
    rw [htalk.calls_eq, hcalls, List.append_assoc]
    rfl
  have hread : ReadFrom before request.requestUri request.headers := by
    refine hregular.parsed.handled before request prior ⟨⟨.onConnect handler, c₀.out⟩ :: calls, ?_⟩
    rw [hlog, List.append_assoc]
    rfl
  have hpings : pings (⟨.onConnect handler, c₀.out⟩ :: calls) = pings calls := rfl
  refine ⟨before, calls, request, handler, prior, c₀.out, earlier, later, _, response, messages, hlog, hread,
    hopening.registered, hhistory, ?_, ?_, htalk.whole hopen, htalk.answers.trans hpings,
    fun client hsends => ?_⟩
  · rw [hcalls, List.append_assoc]
    rfl
  · rw [emitted_of_open htalk hnoError hregular.unfailed hopen, hemitted]
  · rw [hresponse]
    exact hybiLines_accepted htexts hblock hsha1 hsends (some handler) log (wire messages)

/-! ### A run -/

/-- The client of the example in RFC 6455, which offers two protocols. -/
def sampleClient : OpeningHandshake.Client where
  key := ascii "dGhlIHNhbXBsZSBub25jZQ=="
  protocols := [ascii "chat", ascii "superchat"]
  extensions := []
  nonce := ⟨ascii "the sample nonce", by decide +kernel, by decide +kernel⟩
  tokens := by decide +kernel

def sampleRequest : Piece :=
  ⟨ascii ("GET /chat HTTP/1.1\r\nHost: server.example.com\r\nUpgrade: websocket\r\nConnection: Upgrade\r\n"
    ++ "Sec-WebSocket-Key: dGhlIHNhbXBsZSBub25jZQ==\r\nSec-WebSocket-Protocol: chat, superchat\r\n"
    ++ "Sec-WebSocket-Version: 13\r\n\r\n"), by decide +kernel⟩

def sampleHasher : Sha1 := ⟨0, 0, List.replicate 64 0, 0, false, false, ⟨0, 0, 0, 0, 0⟩⟩

/-- The server of one handler, which takes the second protocol. -/
def sampleWorld : World := { World.chat with sha1 := acceptHash sampleHasher, chooseProtocol := fun _ _ => 1 }

theorem plainTexts_sampleWorld : PlainTexts sampleWorld where
  version := by decide
  date := fun _ => ⟨List.not_mem_nil, List.not_mem_nil⟩

/-- Whether the requests in the log are the handshake of the client. -/
def isSampled (h : Hub Unit) : Bool :=
  h.connections.all fun c => c.calls.all fun entry =>
    match entry.call with
    | .handle request =>
        request.headers.find (HttpMessage.text "Sec-WebSocket-Key") == some sampleClient.key &&
          request.headers.find (HttpMessage.text "Sec-WebSocket-Protocol") == sampleClient.protocolList
    | _ => true

theorem sends_of_isSampled {h : Hub Unit} {connection : Nat} {c : Connection} {request : PageRequest}
    {out : Output} (hsampled : isSampled h = true) (hc : h.connections[connection]? = some c)
    (hmem : ⟨.handle request, out⟩ ∈ c.calls) : sampleClient.Sends request.headers.find := by
  rw [isSampled, List.all_eq_true] at hsampled
  have hcalls := List.all_eq_true.mp (hsampled c (List.mem_of_getElem? hc)) _ hmem
  rw [Bool.and_eq_true, beq_iff_eq, beq_iff_eq] at hcalls
  exact ⟨hcalls.1, hcalls.2⟩

theorem run_opened_sample :
    ∃ (h : Hub Unit) (c : Connection) (prior : Output) (response : Bytes)
      (messages : List HybiPacketDecoder.Message) (head : HttpMessage.Head),
      run (fun _ => sampleWorld) echoHandler
        [.accept, .readable 0 (.data sampleRequest), .readable 0 (.data greetingFrame)] (start ()) = .ok h ∧
      h.connections[0]? = some c ∧ Output.emitted c.out = Output.emitted prior ++ response ++ wire messages ∧
      (∃ earlier later, h.history = earlier ++ later ∧ speech messages = spoken (Reactor.mailFor 0
        (echoHandler.replay later (echoHandler.replay earlier ()).1).2)) ∧
      HttpMessage.readHead (response ++ wire messages) = some (head, wire messages) ∧
      sampleClient.Accepts head := by
  have hcheck : (do
      let h ← run (fun _ => sampleWorld) echoHandler
        [.accept, .readable 0 (.data sampleRequest), .readable 0 (.data greetingFrame)] (start ())
      return isOpen 0 h && isSampled h) = .ok true := by decide +kernel
  obtain ⟨h, hrun, hcheck⟩ := ok_of_bind_eq_ok hcheck
  injection hcheck with hcheck
  rw [Bool.and_eq_true] at hcheck
  obtain ⟨c, hc, halive, hstate, hplain, hopen⟩ := exists_of_isOpen hcheck.1
  have hblock : sampleHasher.messageBlock.length = 64 := List.length_replicate
  obtain ⟨before, calls, request, handler, prior, base, earlier, later, joined, response, messages, hcalls, -, -,
    hhistory, -, hemitted, hspeech, -, haccepted⟩ := run_opened hblock rfl plainTexts_sampleWorld hrun hc halive hstate hplain hopen
  have hmem : ⟨.handle request, prior⟩ ∈ c.calls := by
    rw [hcalls]
    exact List.mem_append_right _ List.mem_cons_self
  obtain ⟨head, hread, haccepts⟩ := haccepted sampleClient (sends_of_isSampled hcheck.2 hc hmem)
  exact ⟨h, c, prior, response, messages, head, hrun, hc, hemitted,
    ⟨earlier, joined :: later, hhistory, hspeech⟩, hread, haccepts⟩

end Seasocks.Hub
