import Seasocks.Fault

/-!
# The Hybi packet decoder

`HybiPacketDecoder.cpp`. A decoder is its buffer and `_messageStart`; a call reads the frame there
and moves `_messageStart` behind it.
-/

namespace Seasocks.HybiPacketDecoder

inductive MessageState where
  | noMessage
  | textMessage
  | binaryMessage
  | error
  | ping
  | pong
  | close
deriving DecidableEq, Repr

/-- `enum class Opcode`. -/
inductive Opcode where
  | cont | text | binary | close | ping | pong
deriving DecidableEq, Repr

def Opcode.toByte : Opcode → UInt8
  | .cont => 0x0
  | .text => 0x1
  | .binary => 0x2
  | .close => 0x8
  | .ping => 0x9
  | .pong => 0xA

/-- What a call leaves behind: its result, the caller's two variables and `_messageStart`. -/
structure Decoded where
  messageState : MessageState
  messageOut : Bytes
  deflateNeeded : Bool
  messageStart : Nat
deriving DecidableEq, Repr

/-- The final `switch` on the opcode nibble. -/
def messageStateOf (opcode : UInt8) : MessageState :=
  if opcode = Opcode.text.toByte then .textMessage
  else if opcode = Opcode.binary.toByte then .binaryMessage
  else if opcode = Opcode.ping.toByte then .ping
  else if opcode = Opcode.pong.toByte then .pong
  else if opcode = Opcode.close.toByte then .close
  else .error

/-- `memcpy` of `count` bytes followed by the swap from network byte order. -/
def networkValue (buffer : Bytes) (ptr : Nat) : Nat → Except Fault Nat
  | 0 => .ok 0
  | count + 1 => do
      let high ← networkValue buffer ptr count
      let byte ← byteAt buffer (ptr + count)
      return high * 256 + byte.toNat

/-- The extended payload length, with the pointer behind it; `none` is `NoMessage`. The two size
checks compare with the whole buffer, not with what follows `_messageStart`. -/
def readPayloadLength (buffer : Bytes) (ptr length7 : Nat) :
    Except Fault (Option (Nat × Nat)) := do
  if length7 = 126 then
    if buffer.length < 4 then
      return none
    else
      let rawLength ← networkValue buffer ptr 2
      return some (rawLength, ptr + 2)
  else if length7 = 127 then
    if buffer.length < 10 then
      return none
    else
      let rawLength ← networkValue buffer ptr 8
      return some (rawLength, ptr + 8)
  else
    return some (length7, ptr)

/-- The masking key, zero when the mask bit is clear. -/
def readMask (buffer : Bytes) (ptr : Nat) (maskBit : Bool) :
    Except Fault (Option (UInt32 × Nat)) := do
  if maskBit then
    if buffer.length < ptr + 4 then
      return none
    else
      let rawLength ← networkValue buffer ptr 4
      return some (UInt32.ofNat rawLength, ptr + 4)
  else
    return some (0, ptr)

/-- The copying loop, on the bytes from `ptr` to the end of the buffer. The index is an `unsigned`,
so it wraps, while the length it is compared with has 64 bits. -/
def unmask (payloadLength : Nat) (mask : UInt32) : Bytes → UInt32 → Except Fault Bytes
  | [], i => if i.toNat < payloadLength then .error .outOfRange else .ok []
  | byte :: rest, i =>
      if i.toNat < payloadLength then do
        let byteShift := (3 - (i &&& 3)) * 8
        let decoded := ((byte.toUInt32 ^^^ (mask >>> byteShift)) &&& 0xff).toUInt8
        let messageOut ← unmask payloadLength mask rest (i + 1)
        return decoded :: messageOut
      else .ok []

def decodeNextMessage (buffer : Bytes) (messageStart : Nat) (messageOut : Bytes)
    (deflateNeeded : Bool) : Except Fault Decoded := do
  if messageStart + 1 ≥ buffer.length then
    return ⟨.noMessage, messageOut, deflateNeeded, messageStart⟩
  else
    let first ← byteAt buffer messageStart
    if first &&& 0x80 = 0 then
      return ⟨.error, messageOut, deflateNeeded, messageStart⟩
    else
      let reservedBits := first &&& ((7 : UInt8) <<< 4)
      if reservedBits &&& 0x30 ≠ 0 then
        return ⟨.error, messageOut, deflateNeeded, messageStart⟩
      else
        let deflateNeeded := reservedBits &&& 0x40 != 0
        let opcode := first &&& 0xf
        let second ← byteAt buffer (messageStart + 1)
        let noMessage : Decoded := ⟨.noMessage, messageOut, deflateNeeded, messageStart⟩
        match ← readPayloadLength buffer (messageStart + 2) (second &&& 0x7f).toNat with
        | none => return noMessage
        | some (payloadLength, ptr) =>
            match ← readMask buffer ptr (second &&& 0x80 != 0) with
            | none => return noMessage
            | some (mask, ptr) =>
                let bytesLeftInBuffer ← subtract buffer.length ptr
                if payloadLength > bytesLeftInBuffer then
                  return noMessage
                else
                  let messageOut ← unmask payloadLength mask (buffer.drop ptr) 0
                  return ⟨messageStateOf opcode, messageOut, deflateNeeded, ptr + payloadLength⟩

end Seasocks.HybiPacketDecoder
