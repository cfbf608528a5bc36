import Seasocks.World

/-!
# The handshake digests

`Base64.cpp` and `HybiAccept.cpp`, and the key numbers of the older Hixie handshake.
-/

namespace Seasocks

def cb64 : Bytes := ascii "ABCDEFGHIJKLMNOPQRSTUVWXYZabcdefghijklmnopqrstuvwxyz0123456789+/"

/-- `cb64[index]`; the indices below never exceed 63. -/
def base64Char (index : UInt8) : UInt8 := cb64.getD index.toNat 0

/-- The loop of `base64Encode`, three bytes a turn. -/
def base64Encode : Bytes → Bytes
  | [] => []
  | [b0] => [base64Char (b0 >>> 2), base64Char ((b0 &&& 0x03) <<< 4), 61, 61]
  | [b0, b1] =>
      [base64Char (b0 >>> 2), base64Char (((b0 &&& 0x03) <<< 4) ||| ((b1 &&& 0xf0) >>> 4)),
        base64Char ((b1 &&& 0x0f) <<< 2), 61]
  | b0 :: b1 :: b2 :: rest =>
      base64Char (b0 >>> 2) :: base64Char (((b0 &&& 0x03) <<< 4) ||| ((b1 &&& 0xf0) >>> 4))
        :: base64Char (((b1 &&& 0x0f) <<< 2) ||| ((b2 &&& 0xc0) >>> 6)) :: base64Char (b2 &&& 0x3f)
        :: base64Encode rest

/-- `base64Encode` as it is written, with its `unsigned` index. There is no result while the loop goes
on, or when it reads outside the data. -/
def base64EncodeLoop (data : Bytes) : Nat → UInt32 → Bytes → Option Bytes
  | 0, _, _ => none
  | fuel + 1, i, output =>
      if i.toNat < data.length then do
        let bytesLeft := data.length - i.toNat
        let b0 ← data[i.toNat]?
        let b1 ← if bytesLeft > 1 then data[(i + 1).toNat]? else some 0
        let b2 ← if bytesLeft > 2 then data[(i + 2).toNat]? else some 0
        base64EncodeLoop data fuel (i + 3) (output ++
          [base64Char (b0 >>> 2),
            base64Char (((b0 &&& 0x03) <<< 4) ||| ((b1 &&& 0xf0) >>> 4)),
            if bytesLeft > 1 then base64Char (((b1 &&& 0x0f) <<< 2) ||| ((b2 &&& 0xc0) >>> 6)) else 61,
            if bytesLeft > 2 then base64Char (b2 &&& 0x3f) else 61])
      else some output

def magicString : Bytes := ascii "258EAFA5-E914-47DA-95CA-C5AB0DC85B11"

def getAcceptKey (w : World) (challenge : Bytes) : Bytes :=
  base64Encode (w.sha1 (challenge ++ magicString))

/-- The loop of `parseWebSocketKey`, with both counters. -/
def webSocketKeyNumbers : Bytes → UInt32 × UInt32 → UInt32 × UInt32
  | [], numbers => numbers
  | c :: key, (keyNumber, numSpaces) =>
      if isdigit c then
        webSocketKeyNumbers key (keyNumber * 10 + (c.toUInt32 - 48), numSpaces)
      else if c = 32 then
        webSocketKeyNumbers key (keyNumber, numSpaces + 1)
      else
        webSocketKeyNumbers key (keyNumber, numSpaces)

def parseWebSocketKey (key : Bytes) : UInt32 :=
  let (keyNumber, numSpaces) := webSocketKeyNumbers key (0, 0)
  if numSpaces > 0 then keyNumber / numSpaces else 0

end Seasocks
