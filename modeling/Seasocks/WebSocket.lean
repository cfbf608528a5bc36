import Seasocks.Connection
import Seasocks.HybiAccept
import Seasocks.HybiPacketDecoder

/-!
# WebSocket connections

Sending, the two handshakes and the two loops that take messages from the input buffer.
-/

namespace Seasocks

/-! ### The handshake responses -/

namespace Output

variable (w : World)

/-- `pickProtocol` for the current request and handler. -/
def pickProtocol (request : PageRequest) (webSocketHandler : Option HandlerId) : OutM Unit := do
  let protocolHeader := ascii "Sec-WebSocket-Protocol"
  match webSocketHandler with
  | none => return ()
  | some handler =>
      if request.hasHeader protocolHeader then
        let protocols := (split (request.getHeader protocolHeader) 44).map trimWhitespace
        let choice := w.chooseProtocol handler protocols
        if 0 ≤ choice ∧ choice < protocols.length then
          let _ ← bufferLine w (protocolHeader ++ ascii ": " ++ protocols.getD choice.toNat [])

def hybiHandshake (request : PageRequest) (webSocketHandler : Option HandlerId)
    (webSocketKey : Bytes) (perMessageDeflate : Bool) : OutM Unit := do
  bufferResponseAndCommonHeaders w .webSocketProtocolHandshake
  let _ ← bufferText w "Upgrade: websocket"
  let _ ← bufferText w "Connection: Upgrade"
  let _ ← bufferLine w (ascii "Sec-WebSocket-Accept: " ++ getAcceptKey w webSocketKey)
  if perMessageDeflate then
    let _ ← bufferText w "Sec-WebSocket-Extensions: permessage-deflate"
  pickProtocol w request webSocketHandler
  let _ ← bufferText w ""
  let _ ← flush w

def hixieHandshake (request : PageRequest) (webSocketHandler : Option HandlerId)
    (digest : Bytes) : OutM Unit := do
  bufferResponseAndCommonHeaders w .webSocketProtocolHandshake
  let _ ← bufferText w "Upgrade: websocket"
  let _ ← bufferText w "Connection: Upgrade"
  let allowCrossOrigin := w.isCrossOriginAllowed request.requestUri
  if request.hasHeader (ascii "Origin") && allowCrossOrigin then
    let _ ← bufferLine w
      (ascii "Sec-WebSocket-Origin: " ++ request.getHeader (ascii "Origin"))
  if request.hasHeader (ascii "Host") then
    let host := request.getHeader (ascii "Host")
    if !allowCrossOrigin then
      let _ ← bufferLine w (ascii "Sec-WebSocket-Origin: http://" ++ host)
    let _ ← bufferLine w
      (ascii "Sec-WebSocket-Location: ws://" ++ host ++ request.requestUri)
  pickProtocol w request webSocketHandler
  let _ ← bufferText w ""
  let _ ← write w digest true

end Output

namespace Connection

variable (w : World)

/-! ### Sending -/

def sendHybi (opcode : HybiPacketDecoder.Opcode) (webSocketResponse : Bytes) : ConnM Unit := do
  let deflate := (← get).perMessageDeflate
  let firstByte := 0x80 ||| opcode.toByte ||| (if deflate then 0x40 else 0)
  if ← liftOut (Output.write w [firstByte] false) then
    if deflate then
      let compressed := w.deflate (← get).calls webSocketResponse
      record (.deflate webSocketResponse)
      liftOut (Output.sendHybiData w compressed)
    else
      liftOut (Output.sendHybiData w webSocketResponse)

/-- `send(const char*)`. -/
def sendText (webSocketResponse : Bytes) : ConnM Unit := do
  let c ← get
  if !c.out.shutdown then
    if c.state = .handlingHixieWebSocket then
      if ← liftOut (Output.write w [0] false) then
        if ← liftOut (Output.write w (cString webSocketResponse) false) then
          let _ ← liftOut (Output.write w [0xff] true)
    else
      sendHybi w .text (cString webSocketResponse)

/-- `send(const uint8_t*, size_t)`. -/
def sendBinary (webSocketResponse : Bytes) : ConnM Unit := do
  let c ← get
  if !c.out.shutdown then
    if c.state ≠ .handlingHixieWebSocket then
      sendHybi w .binary webSocketResponse

def wsCall : WsCall → ConnM Unit
  | .sendText data => sendText w data
  | .sendBinary data => sendBinary w data
  | .close => liftOut Output.close

/-- A call of the handler, with the uses it makes of the connection before it returns. -/
def callHandler (call : Call) (react : List Entry → List WsCall) : ConnM Unit := do
  record call
  forM (react (← get).calls) (wsCall w)

def onConnect (handler : HandlerId) : ConnM Unit :=
  callHandler w (.onConnect handler) fun calls => w.onConnect calls handler

def onText (handler : HandlerId) (message : Bytes) : ConnM Unit :=
  callHandler w (.onText handler message) fun calls => w.onText calls handler message

def onBinary (handler : HandlerId) (message : Bytes) : ConnM Unit :=
  callHandler w (.onBinary handler message) fun calls => w.onBinary calls handler message

def onDisconnect (handler : HandlerId) : ConnM Unit :=
  callHandler w (.onDisconnect handler) fun calls => w.onDisconnect calls handler

def handleWebSocketTextMessage (message : Bytes) : ConnM Unit := do
  match (← get).webSocketHandler with
  | some handler => onText w handler message
  | none => return ()

def handleWebSocketBinaryMessage (message : Bytes) : ConnM Unit := do
  match (← get).webSocketHandler with
  | some handler => onBinary w handler message
  | none => return ()

/-! ### Handshakes -/

def parsePerMessageDeflateHeader (header : Bytes) : ConnM Unit :=
  forM (split header 59) fun extField => do
    if caseInsensitiveSame (extField.dropWhile isspace) (ascii "permessage-deflate") then
      modify fun c => { c with perMessageDeflate := true }
      record .initialise

def handleHybiHandshake (webSocketVersion : Int) (webSocketKey : Bytes) : ConnM Bool := do
  if webSocketVersion ≠ 8 ∧ webSocketVersion ≠ 13 then
    sendBadRequest w (ascii "Invalid websocket version")
  else
    let request ← theRequest
    let c ← get
    liftOut (Output.hybiHandshake w request c.webSocketHandler webSocketKey c.perMessageDeflate)
    match c.webSocketHandler with
    | some handler => onConnect w handler
    | none => pure ()
    setState .handlingHybiWebSocket
    return true

def networkKey (key : UInt32) : Bytes := Output.networkBytes key.toNat 4

/-- The end of `handleWebSocketKey3`. -/
def startHixie : ConnM Unit := do
  modify fun c => { c with state := .handlingHixieWebSocket, inBuf := c.inBuf.drop 8 }
  match (← get).webSocketHandler with
  | some handler => onConnect w handler
  | none => return ()

def handleWebSocketKey3 : ConnM Unit := do
  let c ← get
  if 8 ≤ c.inBuf.length then
    let request ← theRequest
    let key1 := parseWebSocketKey (request.getHeader (ascii "Sec-WebSocket-Key1"))
    let key2 := parseWebSocketKey (request.getHeader (ascii "Sec-WebSocket-Key2"))
    let digest := w.md5 (networkKey key1 ++ networkKey key2 ++ c.inBuf.take 8)
    record (.key (c.inBuf.take 8))
    liftOut (Output.hixieHandshake w request c.webSocketHandler digest)
    startHixie w

/-! ### Receiving -/

def closeIfTooLong : ConnM Unit := do
  if maxWebsocketMessageSize < (← get).inBuf.length then
    closeInternal

/-- The loop of `handleHixieWebSocket`: where the unread part of the buffer starts, `none` after a
close. A turn that goes on has passed a message, so one turn more than there are bytes suffices. The
terminator the loop overwrites lies in the part that is erased afterwards. -/
def hixieLoop (inBuf : Bytes) : Nat → Nat → ConnM (Option Nat)
  | 0, messageStart => return some messageStart
  | fuel + 1, messageStart => do
      match inBuf.drop messageStart with
      | [] => return some messageStart
      | first :: rest =>
          if first ≠ 0 then
            closeInternal
            return none
          else
            match rest.idxOf? 0xff with
            | none => return some messageStart
            | some length =>
                record (.message (first :: rest.take (length + 1)))
                handleWebSocketTextMessage w (cString (rest.take length))
                hixieLoop inBuf fuel (messageStart + length + 2)

def handleHixieWebSocket : ConnM Unit := do
  let inBuf := (← get).inBuf
  if inBuf ≠ [] then
    match ← hixieLoop w inBuf (inBuf.length + 1) 0 with
    | none => return ()
    | some messageStart =>
        modify fun c => { c with inBuf := c.inBuf.drop messageStart }
        closeIfTooLong

/-- The payload of a message, decompressed if need be; `none` after a close. -/
def inflateMessage (decoded : HybiPacketDecoder.Decoded) : ConnM (Option Bytes) := do
  if decoded.deflateNeeded then
    if (← get).perMessageDeflate then
      record (.inflate decoded.messageOut)
      match w.inflate (← get).calls decoded.messageOut with
      | some decompressed => return some decompressed
      | none =>
          closeInternal
          return none
    else
      closeInternal
      return none
  else
    return some decoded.messageOut

/-- The `switch` on the decoder's result: whether the loop goes on, `none` after a close. -/
def dispatchMessage (messageState : HybiPacketDecoder.MessageState) (message : Bytes) :
    ConnM (Option Bool) := do
  match messageState with
  | .error =>
      closeInternal
      return none
  | .textMessage =>
      handleWebSocketTextMessage w (cString message)
      return some true
  | .binaryMessage =>
      handleWebSocketBinaryMessage w message
      return some true
  | .ping =>
      sendHybi w .pong message
      return some true
  | .pong => return some true
  | .noMessage => return some false
  | .close =>
      closeInternal
      return none

/-- The loop of `handleHybiWebSocket`: what `numBytesDecoded` is after it, `none` after a close. A
turn that goes on has passed a frame, so one turn more than there are bytes suffices. -/
def hybiLoop (inBuf : Bytes) : Nat → Nat → ConnM (Option Nat)
  | 0, messageStart => return some messageStart
  | fuel + 1, messageStart => do
      match HybiPacketDecoder.decodeNextMessage inBuf messageStart [] false with
      | .error f => fault f
      | .ok decoded =>
          if messageStart < decoded.messageStart then
            record (.frame ((inBuf.take decoded.messageStart).drop messageStart))
          match ← inflateMessage w decoded with
          | none => return none
          | some message =>
              match ← dispatchMessage w decoded.messageState message with
              | none => return none
              | some true => hybiLoop inBuf fuel decoded.messageStart
              | some false => return some decoded.messageStart

def handleHybiWebSocket : ConnM Unit := do
  let inBuf := (← get).inBuf
  if inBuf ≠ [] then
    match ← hybiLoop w inBuf (inBuf.length + 1) 0 with
    | none => return ()
    | some numBytesDecoded =>
        modify fun c => { c with inBuf := c.inBuf.drop numBytesDecoded }
        closeIfTooLong

end Connection

end Seasocks
