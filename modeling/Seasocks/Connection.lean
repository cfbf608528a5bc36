import Seasocks.Fault
import Seasocks.Output
import Seasocks.StringUtil

/-!
# Connections

The state of a `Connection` and the monad its methods run in, with what all of them share: its output
side, the calls to the application, and the error pages.
-/

namespace Seasocks

/-- `Connection::State`. -/
inductive State where
  | invalid
  | readingHeaders
  | readingWebSocketKey3
  | handlingHixieWebSocket
  | handlingHybiWebSocket
  | bufferingPostData
  | awaitingResponseBegin
  | sendingResponseHeaders
  | sendingResponseBody
deriving DecidableEq, Repr

/-- The members of a `Connection`. `writer` says whether `_writer` is still attached, and `alive`
whether the destructor has not run. -/
structure Connection where
  out : Output
  inBuf : Bytes
  bytesReceived : Nat
  state : State
  request : Option PageRequest
  response : Option Response
  transferEncoding : TransferEncoding
  chunk : UInt32
  writer : Bool
  webSocketHandler : Option HandlerId
  perMessageDeflate : Bool
  alive : Bool
  calls : List Entry
deriving DecidableEq, Repr

/-- How a method ends when it does not return. -/
inductive Exn where
  | exception (exception : LogicError)
  | fault (fault : Fault)
deriving DecidableEq, Repr

abbrev ConnM := EStateM Exn Connection

def readWriteBufferSize : Nat := 16 * 1024

def maxWebsocketMessageSize : Nat := 16384

def maxHeadersSize : Nat := 64 * 1024

namespace Connection

def fresh : Connection :=
  { out := Output.fresh
    inBuf := []
    bytesReceived := 0
    state := .readingHeaders
    request := none
    response := none
    transferEncoding := .raw
    chunk := 0
    writer := true
    webSocketHandler := none
    perMessageDeflate := false
    alive := true
    calls := [] }

def closed (c : Connection) : Bool := c.out.closed

/-- Closed, or marked to close once the output buffer is empty. -/
def closing (c : Connection) : Bool := c.out.closing

def getRequestUri (c : Connection) : Bytes := (c.request.map (·.requestUri)).getD []

def getHeader (c : Connection) (name : Bytes) : Bytes :=
  (c.request.map fun request => request.getHeader name).getD []

/-! ### The output side and the log -/

def liftOut {α : Type} (m : OutM α) : ConnM α := do
  let c ← get
  let (result, out) := m.run c.out
  set { c with out := out }
  return result

def fault {α : Type} (f : Fault) : ConnM α := throw (.fault f)

/-- An output routine that may reach undefined behaviour. -/
def liftChecked {α : Type} (m : OutM (Except Fault α)) : ConnM α := do
  match ← liftOut m with
  | .ok result => return result
  | .error f => fault f

def record (call : Call) : ConnM Unit :=
  modify fun c => { c with calls := c.calls ++ [⟨call, c.out⟩] }

def setState (state : State) : ConnM Unit := modify fun c => { c with state := state }

def closeInternal : ConnM Unit := liftOut Output.closeInternal

/-- `_request->`, which must not be null. -/
def theRequest : ConnM PageRequest := do
  match (← get).request with
  | some request => return request
  | none => fault .badPointer

/-! ### Error pages -/

variable (w : World)

def sendError (responseCode : ResponseCode) (body : Bytes) : ConnM Bool := do
  if (← get).state = .handlingHixieWebSocket then
    fault .assertion
  else
    liftOut (Output.sendError w responseCode body)

def sendUnsupportedError (reason : Bytes) : ConnM Bool := sendError w .notImplemented reason

def sendBadRequest (reason : Bytes) : ConnM Bool := sendError w .badRequest reason

def sendISE (error : Bytes) : ConnM Bool := sendError w .internalServerError error

end Connection

/-! ### Content types -/

def contentTypes : List (Bytes × Bytes) :=
  [(ascii "txt", ascii "text/plain"),
    (ascii "css", ascii "text/css"),
    (ascii "csv", ascii "text/csv"),
    (ascii "htm", ascii "text/html"),
    (ascii "html", ascii "text/html"),
    (ascii "xml", ascii "text/xml"),
    (ascii "js", ascii "text/javascript"),
    (ascii "xhtml", ascii "application/xhtml+xml"),
    (ascii "json", ascii "application/json"),
    (ascii "pdf", ascii "application/pdf"),
    (ascii "zip", ascii "application/zip"),
    (ascii "tar", ascii "application/x-tar"),
    (ascii "gif", ascii "image/gif"),
    (ascii "jpeg", ascii "image/jpeg"),
    (ascii "jpg", ascii "image/jpeg"),
    (ascii "tiff", ascii "image/tiff"),
    (ascii "tif", ascii "image/tiff"),
    (ascii "png", ascii "image/png"),
    (ascii "svg", ascii "image/svg+xml"),
    (ascii "ico", ascii "image/x-icon"),
    (ascii "swf", ascii "application/x-shockwave-flash"),
    (ascii "mp3", ascii "audio/mpeg"),
    (ascii "wav", ascii "audio/x-wav"),
    (ascii "ttf", ascii "font/ttf")]

/-- What follows the last dot. -/
def getExt (path : Bytes) : Bytes :=
  if 46 ∈ path then (path.reverse.takeWhile (· != 46)).reverse else []

def getContentType (path : Bytes) : Bytes :=
  (contentTypes.lookup (getExt path)).getD (ascii "text/html")

def isCacheable (path : Bytes) : Bool := getExt path == ascii "mp3" || getExt path == ascii "wav"

namespace Connection

variable (w : World)

def send404 : ConnM Bool := do
  let c ← get
  let path := c.getRequestUri
  match w.embeddedContent path with
  | some embedded => liftOut (Output.sendData w (getContentType path) embedded)
  | none =>
      if cString path = ascii "/_livestats.js" then
        liftOut (Output.sendData w (ascii "text/javascript") (w.statsDocument c.out.log))
      else
        sendError w .notFound (ascii "Unable to find resource for: " ++ path)

end Connection

end Seasocks
