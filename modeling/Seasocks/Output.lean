import Seasocks.World

/-!
# The output side of a connection

`Connection::write` and `flush` with what they are built from, and the routines that only produce
output: lines, headers, error pages and embedded documents.
-/

namespace Seasocks

abbrev OutM := StateM Output

namespace Output

variable (w : World)

/-! ### Closing -/

def record (event : OutEvent) : OutM Unit :=
  modify fun o => { o with log := o.log ++ [event] }

def closeInternal : OutM Unit := do
  let o ← get
  if o.fd && !o.shutdown then
    record .shutdown
  modify fun o => { o with shutdown := true }

def close : OutM Unit := do
  modify fun o => { o with shutdownByUser := true }
  closeInternal

def closeWhenEmpty : OutM Unit := do
  let o ← get
  if o.outBuf = [] then
    closeInternal
  else
    modify fun o => { o with closeOnEmpty := true }

/-! ### Writing -/

def safeSend (data : Bytes) : OutM Int := do
  let o ← get
  if !o.fd || o.hadSendError || o.shutdown then
    return -1
  else
    let result := w.send o.log data
    record (.send data result)
    match result with
    | .sent count =>
        modify fun o => { o with bytesSent := o.bytesSent + min count data.length }
        return (min count data.length : Nat)
    | .wouldBlock => return 0
    | .failed =>
        closeInternal
        return -1

/-- `subscribeToWriteEvents` and `unsubscribeFromWriteEvents`. -/
def setWriteEvents (wantWrite : Bool) : OutM Bool := do
  let o ← get
  let succeeded := w.epollMod o.log wantWrite
  record (.epollMod wantWrite succeeded)
  if succeeded then
    modify fun o => { o with registeredForWriteEvents := wantWrite }
  return succeeded

/-- The middle part of `flush`: the epoll interest follows whether the buffer is empty. -/
def updateWriteEvents : OutM Bool := do
  let o ← get
  if o.outBuf ≠ [] ∧ o.registeredForWriteEvents = false then
    setWriteEvents w true
  else if o.outBuf = [] ∧ o.registeredForWriteEvents = true then
    setWriteEvents w false
  else
    return true

def flush : OutM Bool := do
  let o ← get
  if o.outBuf = [] then
    return true
  else
    let numSent ← safeSend w o.outBuf
    if numSent = -1 then
      return false
    else
      modify fun o => { o with outBuf := o.outBuf.drop numSent.toNat }
      if ← updateWriteEvents w then
        let o ← get
        if o.outBuf = [] && !o.closed && o.closeOnEmpty then
          closeInternal
        return true
      else
        return false

/-- The part of `write` after the attempt to send directly: buffer what is left, then flush. -/
def bufferAndFlush (data : Bytes) (flushIt : Bool) : OutM Bool := do
  let o ← get
  if o.outBuf.length + data.length ≥ w.clientBufferSize then
    record .overflow
    closeInternal
    return false
  else
    modify fun o => { o with outBuf := o.outBuf ++ data }
    if flushIt then flush w else return true

def write (data : Bytes) (flushIt : Bool) : OutM Bool := do
  let o ← get
  if o.closed || o.closeOnEmpty then
    return false
  else
    record (.write data)
    if data = [] then
      if flushIt then flush w else return true
    else if o.outBuf = [] ∧ flushIt = true then
      let bytesSent ← safeSend w data
      if bytesSent = staticCastInt data.length then
        return true
      else if bytesSent = -1 then
        return false
      else
        bufferAndFlush w (data.drop bytesSent.toNat) flushIt
    else
      bufferAndFlush w data flushIt

def handleDataReadyForWrite : OutM Unit := do
  let o ← get
  if o.closed then
    return ()
  else
    let _ ← flush w
    return ()

/-! ### Lines and pages -/

def bufferLine (line : Bytes) : OutM Bool := write w (line ++ crlf) false

/-- The overload for string constants, which writes the line end separately. -/
def bufferText (line : String) : OutM Bool := do
  if ← write w (ascii line) false then
    write w crlf false
  else
    return false

def bufferResponseAndCommonHeaders (code : ResponseCode) : OutM Unit := do
  let _ ← bufferLine w (ascii "HTTP/1.1 " ++ decimal code.toNat ++ ascii " " ++ code.name)
  let _ ← bufferLine w (ascii "Server: " ++ w.version)
  let o ← get
  let _ ← bufferLine w (ascii "Date: " ++ w.now o.log)
  let _ ← bufferText w "Access-Control-Allow-Origin: *"

def errorDocument (code : ResponseCode) (body : Bytes) : Bytes :=
  let number := decimal code.toNat
  match w.embeddedContent (ascii "/_error.html") with
  | some errorContent =>
      replace (replace (replace errorContent (ascii "%%ERRORCODE%%") number)
        (ascii "%%MESSAGE%%") code.name) (ascii "%%BODY%%") body
  | none =>
      ascii "<html><head><title>" ++ number ++ ascii " - " ++ code.name
        ++ ascii "</title></head><body><h1>" ++ number ++ ascii " - " ++ code.name
        ++ ascii "</h1><div>" ++ body ++ ascii "</div><hr/><div><i>Powered by "
        ++ ascii "<a href=\"https://github.com/mattgodbolt/seasocks\">Seasocks</a></i></div>"
        ++ ascii "</body></html>"

/-- `sendError` without its assertion on the state. -/
def sendError (code : ResponseCode) (body : Bytes) : OutM Bool := do
  bufferResponseAndCommonHeaders w code
  let document := errorDocument w code body
  let _ ← bufferLine w (ascii "Content-Length: " ++ decimal document.length)
  let _ ← bufferText w "Connection: close"
  let _ ← bufferText w ""
  let _ ← bufferLine w document
  if ← flush w then
    closeWhenEmpty
    return true
  else
    return false

/-- The header lines `sendHeader` and `sendData` share. -/
def bufferContentHeaders (type : Bytes) (size : Nat) : OutM Bool := do
  bufferResponseAndCommonHeaders w .ok
  let _ ← bufferLine w (ascii "Content-Type: " ++ type)
  let _ ← bufferLine w (ascii "Content-Length: " ++ decimal size)
  let _ ← bufferText w "Connection: keep-alive"
  bufferText w ""

def sendHeader (type : Bytes) (size : Nat) : OutM Bool := bufferContentHeaders w type size

def sendData (type content : Bytes) : OutM Bool := do
  let _ ← bufferContentHeaders w type content.length
  write w content true

/-! ### Hybi frames -/

/-- A number in network byte order. -/
def networkBytes (value : Nat) : Nat → Bytes
  | 0 => []
  | count + 1 => UInt8.ofNat (value / 256 ^ count) :: networkBytes value count

/-- The length bytes of a frame without a mask. -/
def writeHybiLength (messageLength : Nat) : OutM Bool := do
  if messageLength < 126 then
    write w [UInt8.ofNat messageLength] false
  else if messageLength < 65536 then
    if ← write w [126] false then
      write w (networkBytes messageLength 2) false
    else
      return false
  else
    if ← write w [127] false then
      write w (networkBytes messageLength 8) false
    else
      return false

def sendHybiData (message : Bytes) : OutM Unit := do
  if ← writeHybiLength w message.length then
    let _ ← write w message true

end Output

end Seasocks
