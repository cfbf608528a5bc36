import Seasocks.Connection

/-!
# Responses of page handlers

The methods a `ResponseWriter` delegates to.
-/

namespace Seasocks.Connection

variable (w : World)

def error (responseCode : ResponseCode) (payload : Bytes) : ConnM Unit := do
  if (← get).state = .awaitingResponseBegin then
    if responseCode = .notFound then
      let _ ← send404 w
    else
      let _ ← sendError w responseCode payload

def begin (responseCode : ResponseCode) (encoding : TransferEncoding) : ConnM Unit := do
  if (← get).state = .awaitingResponseBegin then
    setState .sendingResponseHeaders
    liftOut (Output.bufferResponseAndCommonHeaders w responseCode)
    modify fun c => { c with transferEncoding := encoding }
    if encoding = .chunked then
      let _ ← liftOut (Output.bufferText w "Transfer-encoding: chunked")

def header (header value : Bytes) : ConnM Unit := do
  if (← get).state = .sendingResponseHeaders then
    let _ ← liftOut (Output.bufferLine w (header ++ ascii ": " ++ value))

def writeChunkHeader (size : Nat) : ConnM Unit := do
  let c ← get
  let lineEnd := if c.chunk = 0 then [] else crlf
  set { c with chunk := c.chunk + 1 }
  let _ ← liftOut (Output.write w (lineEnd ++ hexadecimal size ++ crlf) false)

/-- `payload` once the state is `SENDING_RESPONSE_BODY`. -/
def payloadBody (data : Bytes) (flush : Bool) : ConnM Unit := do
  if data ≠ [] ∧ (← get).transferEncoding = .chunked then
    writeChunkHeader w data.length
  let _ ← liftOut (Output.write w data flush)

def payload (data : Bytes) (flush : Bool) : ConnM Unit := do
  let c ← get
  if c.state = .sendingResponseHeaders then
    let _ ← liftOut (Output.bufferText w "")
    setState .sendingResponseBody
    payloadBody w data flush
  else if c.state = .sendingResponseBody then
    payloadBody w data flush

/-- `finish` once the header lines are complete. -/
def finishBody (keepConnectionOpen : Bool) : ConnM Unit := do
  if (← get).transferEncoding = .chunked then
    writeChunkHeader w 0
    let _ ← liftOut (Output.write w crlf false)
  let _ ← liftOut (Output.flush w)
  if !keepConnectionOpen then
    liftOut Output.closeWhenEmpty
  modify fun c => { c with state := .readingHeaders, response := none }

def finish (keepConnectionOpen : Bool) : ConnM Unit := do
  let c ← get
  if c.state = .sendingResponseHeaders then
    let _ ← liftOut (Output.bufferText w "")
    finishBody w keepConnectionOpen
  else if c.state = .sendingResponseBody then
    finishBody w keepConnectionOpen

/-- A call of a `Writer` that is attached. -/
def writerCall : WriterCall → ConnM Unit
  | .begin responseCode encoding => begin w responseCode encoding
  | .header name value => header w name value
  | .payload data flush => payload w data flush
  | .finish keepConnectionOpen => finish w keepConnectionOpen
  | .error responseCode payload => error w responseCode payload

/-- `Writer::isActive`. -/
def isActive (c : Connection) : Bool := c.writer

/-- `sendResponse` for a response that is not `unhandled`. -/
def handleResponse (response : Response) : ConnM Bool := do
  if (← get).response.isSome then
    fault .assertion
  else
    modify fun c =>
      { c with
        state := .awaitingResponseBegin
        transferEncoding := .raw
        chunk := 0
        response := some response }
    forM response.calls (writerCall w)
    return true

end Seasocks.Connection
