import Seasocks.Request
import Seasocks.ResponseCode

/-!
# The world around a connection

What a connection calls and cannot control: the socket and epoll, the clock and the file system, the
page handlers, WebSocket handlers and responses of the application, zlib and the digests. Each answer
may depend on everything that happened on that side before, which the connection's logs hold, so a
`World` stands for any sequence of answers.
-/

namespace Seasocks

/-- A `WebSocket::Handler`, by its identity. -/
abbrev HandlerId := Nat

/-! ### What the output side does -/

inductive SendResult where
  | sent (count : Nat)
  /-- `EAGAIN` or `EWOULDBLOCK`. -/
  | wouldBlock
  | failed
deriving DecidableEq, Repr

/-- The log of the output side. `write` is data that `Connection::write` took up, `overflow` the
client buffer growing past its limit; the rest are system calls. -/
inductive OutEvent where
  | write (data : Bytes)
  | send (data : Bytes) (result : SendResult)
  | epollMod (wantWrite : Bool) (succeeded : Bool)
  | overflow
  | shutdown
  | closeFd
deriving DecidableEq, Repr

/-- The fields of a `Connection` that its output routines read and write, and their log. `fd` says
whether `_fd` is valid. -/
structure Output where
  fd : Bool
  shutdown : Bool
  hadSendError : Bool
  closeOnEmpty : Bool
  registeredForWriteEvents : Bool
  shutdownByUser : Bool
  bytesSent : Nat
  outBuf : Bytes
  log : List OutEvent
deriving DecidableEq, Repr

namespace Output

def fresh : Output :=
  { fd := true
    shutdown := false
    hadSendError := false
    closeOnEmpty := false
    registeredForWriteEvents := false
    shutdownByUser := false
    bytesSent := 0
    outBuf := []
    log := [] }

def closed (o : Output) : Bool := !o.fd || o.shutdown

def closing (o : Output) : Bool := o.closed || o.closeOnEmpty

end Output

/-! ### What the input side does -/

/-- The log of the input side: what is taken from the input buffer (header blocks, bodies, the key of
a Hixie handshake, Hixie messages and Hybi frames), the calls made to the application and to zlib, and
the static files opened. -/
inductive Call where
  | headers (block : Bytes)
  | content (body : Bytes)
  | key (key3 : Bytes)
  | message (message : Bytes)
  | frame (frame : Bytes)
  | handle (request : PageRequest)
  | openFile (path : Bytes) (opened : Bool)
  | cancel
  | onConnect (handler : HandlerId)
  | onText (handler : HandlerId) (message : Bytes)
  | onBinary (handler : HandlerId) (message : Bytes)
  | onDisconnect (handler : HandlerId)
  | initialise
  | inflate (input : Bytes)
  | deflate (input : Bytes)
deriving DecidableEq, Repr

/-- Whether an entry stands for something taken from the input buffer. -/
def Call.isTaken : Call → Bool
  | .headers _ | .content _ | .key _ | .message _ | .frame _ => true
  | _ => false

/-- The WebSocket handler a callback goes to. -/
def Call.callee : Call → Option HandlerId
  | .onConnect handler | .onText handler _ | .onBinary handler _ | .onDisconnect handler =>
      some handler
  | _ => none

/-- A logged call, with the output side as it was then. -/
structure Entry where
  call : Call
  out : Output
deriving DecidableEq, Repr

/-! ### What the application does -/

inductive TransferEncoding where
  | raw
  | chunked
deriving DecidableEq, Repr

/-- A use of a `ResponseWriter`. -/
inductive WriterCall where
  | begin (responseCode : ResponseCode) (encoding : TransferEncoding)
  | header (name value : Bytes)
  | payload (data : Bytes) (flush : Bool)
  | finish (keepConnectionOpen : Bool)
  | error (responseCode : ResponseCode) (payload : Bytes)
deriving DecidableEq, Repr

/-- A response, by what its `handle` does with the writer before it returns; whatever else the
response does with it comes later. -/
structure Response where
  calls : List WriterCall
deriving DecidableEq, Repr

/-- What the page handlers make of a request. -/
inductive PageOutcome where
  | unhandled
  | response (response : Response)
  /-- A `std::exception` with its `what()`. -/
  | throws (what : Bytes)
  | throwsUnknown
deriving DecidableEq, Repr

/-- A use of the `WebSocket` interface. -/
inductive WsCall where
  | sendText (data : Bytes)
  | sendBinary (data : Bytes)
  | close
deriving DecidableEq, Repr

structure WebSocketHandlerEntry where
  handler : Option HandlerId
  allowCrossOrigin : Bool
deriving DecidableEq, Repr

/-- A regular file as `fstat` and `read` see it. -/
structure File where
  size : Nat
  content : Bytes
  lastModified : Bytes
deriving DecidableEq, Repr

structure World where
  -- The server's settings.
  clientBufferSize : Nat
  staticPath : Bytes
  perMessageDeflateEnabled : Bool
  webSocketHandlerMap : List (Bytes × WebSocketHandlerEntry)
  version : Bytes
  embeddedContent : Bytes → Option Bytes
  -- The operating system.
  send : List OutEvent → Bytes → SendResult
  epollMod : List OutEvent → Bool → Bool
  now : List OutEvent → Bytes
  statsDocument : List OutEvent → Bytes
  openFile : List Entry → Bytes → Option File
  seek : List OutEvent → Bytes → Bool
  /-- How many bytes a `read` of a file yields, `none` on an error. -/
  readFile : List OutEvent → Bytes → Nat → Nat → Option Nat
  -- The application.
  handle : List Entry → PageRequest → PageOutcome
  onConnect : List Entry → HandlerId → List WsCall
  onText : List Entry → HandlerId → Bytes → List WsCall
  onBinary : List Entry → HandlerId → Bytes → List WsCall
  onDisconnect : List Entry → HandlerId → List WsCall
  chooseProtocol : HandlerId → List Bytes → Int
  -- zlib, MD5 and SHA-1.
  inflate : List Entry → Bytes → Option Bytes
  deflate : List Entry → Bytes → Bytes
  md5 : Bytes → Bytes
  sha1 : Bytes → Bytes

namespace World

variable (w : World)

/-- The entry of an endpoint: the URI up to its first `?`. -/
def endpointEntry (endpoint : Bytes) : Option WebSocketHandlerEntry :=
  match split endpoint 63 with
  | [] => none
  | name :: _ => w.webSocketHandlerMap.lookup name

def getWebSocketHandler (endpoint : Bytes) : Option HandlerId :=
  (w.endpointEntry endpoint).bind (·.handler)

def isCrossOriginAllowed (endpoint : Bytes) : Bool :=
  ((w.endpointEntry endpoint).map (·.allowCrossOrigin)).getD false

/-- A server with its default buffer size and nothing registered, on a system where nothing fails. -/
def plain : World :=
  { clientBufferSize := 16 * 1024 * 1024
    staticPath := []
    perMessageDeflateEnabled := false
    webSocketHandlerMap := []
    version := []
    embeddedContent := fun _ => none
    send := fun _ data => .sent data.length
    epollMod := fun _ _ => true
    now := fun _ => []
    statsDocument := fun _ => []
    openFile := fun _ _ => none
    seek := fun _ _ => true
    readFile := fun _ _ _ count => some count
    handle := fun _ _ => .unhandled
    onConnect := fun _ _ => []
    onText := fun _ _ _ => []
    onBinary := fun _ _ _ => []
    onDisconnect := fun _ _ => []
    chooseProtocol := fun _ _ => -1
    inflate := fun _ data => some data
    deflate := fun _ data => data
    md5 := fun _ => []
    sha1 := fun _ => [] }

/-- The plain server with one WebSocket handler. -/
def chat : World := { plain with webSocketHandlerMap := [(ascii "/chat", ⟨some 1, false⟩)] }

/-- The server with one WebSocket handler, with compression. -/
def compressing : World := { chat with perMessageDeflateEnabled := true }

/-- The plain server with an embedded document under every name. -/
def embedded : World := { plain with embeddedContent := fun _ => some (ascii "text") }

/-- The plain server with the same small file under every name. -/
def files : World := { plain with openFile := fun _ _ => some ⟨4, ascii "text", []⟩ }

/-- The server with the same small file under every name, with a static root. -/
def rooted (staticPath : Bytes) : World := { files with staticPath }

/-- The plain server with a page handler that answers every request in the same way. -/
def pages (response : Response) : World := { plain with handle := fun _ _ => .response response }

end World

end Seasocks
