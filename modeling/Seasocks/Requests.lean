import Seasocks.PageResponse
import Seasocks.RequestParser
import Seasocks.StaticData
import Seasocks.WebSocket

/-!
# Taking requests from the input buffer

`processHeaders` and `handlePageRequest`, and the state machine of `handleNewData` that calls them and
the WebSocket routines.
-/

namespace Seasocks.Connection

variable (w : World)

/-! ### One request -/

def sendResponse : Option Response → ConnM Bool
  | none => sendStaticData w
  | some response => handleResponse w response

/-- The part of `handlePageRequest` for a WebSocket request that no page handler answers. -/
def handleUpgrade (request : PageRequest) : ConnM Bool := do
  let handler := w.getWebSocketHandler request.requestUri
  modify fun c => { c with webSocketHandler := handler }
  match stoi (request.getHeader (ascii "Sec-WebSocket-Version")) with
  | .error _ => sendError w .upgradeRequired (ascii "Invalid Sec-WebSocket-Version received")
  | .ok webSocketVersion =>
      if handler.isNone then
        send404 w
      else if webSocketVersion = 0 then
        setState .readingWebSocketKey3
        return true
      else
        handleHybiHandshake w webSocketVersion (request.getHeader (ascii "Sec-WebSocket-Key"))

def handlePageRequest : ConnM Bool := do
  let request ← theRequest
  let outcome := w.handle (← get).calls request
  record (.handle request)
  match outcome with
  | .throws what => sendISE w what
  | .throwsUnknown => sendISE w (ascii "(unknown)")
  | .response response => sendResponse w (some response)
  | .unhandled =>
      if request.verb = .webSocket then
        handleUpgrade w request
      else
        sendResponse w none

def hasConnectionType (connection type : Bytes) : Bool :=
  (split connection 44).any fun conType => caseInsensitiveSame (conType.dropWhile isspace) type

/-- The test of `processHeaders` for a WebSocket request. -/
def isUpgrade (headers : HeaderMap) : Bool :=
  headers.count (ascii "Connection") && headers.count (ascii "Upgrade")
    && hasConnectionType (headers.get (ascii "Connection")) (ascii "Upgrade")
    && caseInsensitiveSame (headers.get (ascii "Upgrade")) (ascii "websocket")

/-- `processHeaders` from the creation of the request on. -/
def processRequest (verb : Verb) (requestUri : Bytes) (headers : HeaderMap) : ConnM Bool := do
  let request := PageRequest.create requestUri verb headers
  modify fun c => { c with request := some request }
  match verb, w.embeddedContent requestUri with
  | .get, some embedded => liftOut (Output.sendData w (getContentType requestUri) embedded)
  | .head, some embedded =>
      liftOut (Output.sendHeader w (getContentType requestUri) embedded.length)
  | _, _ =>
      if w.clientBufferSize < request.contentLength then
        sendBadRequest w (ascii "Content length too long")
      else if request.contentLength = 0 then
        handlePageRequest w
      else
        setState .bufferingPostData
        return true

/-- `processHeaders` once the header block is read. -/
def processParsed (verb : Verb) (requestUri : Bytes) (headers : HeaderMap) : ConnM Bool := do
  if isUpgrade headers then
    if verb ≠ .get then
      sendBadRequest w (ascii "Non-GET WebSocket request")
    else
      let handler := w.getWebSocketHandler requestUri
      modify fun c => { c with webSocketHandler := handler }
      if handler.isNone then
        send404 w
      else
        if w.perMessageDeflateEnabled && headers.count (ascii "Sec-WebSocket-Extensions") then
          parsePerMessageDeflateHeader (headers.get (ascii "Sec-WebSocket-Extensions"))
        processRequest w .webSocket requestUri headers
  else
    processRequest w verb requestUri headers

/-- `processHeaders` on the first `last` bytes of the input buffer, which the parser overwrites. -/
def processHeaders (last : Nat) : ConnM Bool := do
  let c ← get
  match RequestParser.block.run (c.inBuf.take last) with
  | .error (.fault f) _ => fault f
  | .error (.reject responseCode reason) memory =>
      set { c with inBuf := memory ++ c.inBuf.drop last }
      sendError w responseCode reason
  | .ok (verb, requestUri, headers) memory =>
      set { c with inBuf := memory ++ c.inBuf.drop last }
      processParsed w verb requestUri headers

/-! ### The state machine -/

/-- `handleHeaders`: whether it goes on to `handleNewData`. -/
def handleHeaders : ConnM Bool := do
  let c ← get
  match find (crlf ++ crlf) c.inBuf with
  | some i =>
      record (.headers (c.inBuf.take (i + 4)))
      if ← processHeaders w (i + 2) then
        modify fun c => { c with inBuf := c.inBuf.drop (i + 4) }
        return true
      else
        closeInternal
        return false
  | none =>
      if maxHeadersSize < c.inBuf.length then
        let _ ← sendUnsupportedError w (ascii "Headers too big")
      return false

def handleBufferingPostData : ConnM Unit := do
  let c ← get
  let request ← theRequest
  match request.consumeContent c.inBuf with
  | none => return ()
  | some (request, inBuf) =>
      record (.content request.content)
      modify fun c =>
        { c with state := .readingHeaders, request := some request, inBuf := inBuf }
      if !(← handlePageRequest w) then
        closeInternal

/-- `handleNewData`, which `handleHeaders` calls again. Every further turn has used up a header block,
so one turn more than there are bytes suffices. -/
def handleNewDataFrom : Nat → ConnM Unit
  | 0 => return ()
  | fuel + 1 => do
      match (← get).state with
      | .readingHeaders =>
          if ← handleHeaders w then
            handleNewDataFrom fuel
      | .readingWebSocketKey3 => handleWebSocketKey3 w
      | .handlingHixieWebSocket => handleHixieWebSocket w
      | .handlingHybiWebSocket => handleHybiWebSocket w
      | .bufferingPostData => handleBufferingPostData w
      | .awaitingResponseBegin | .sendingResponseBody | .sendingResponseHeaders => return ()
      | .invalid => fault .assertion

def handleNewData : ConnM Unit := do handleNewDataFrom w ((← get).inBuf.length + 1)

end Seasocks.Connection
