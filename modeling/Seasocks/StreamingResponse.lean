import Seasocks.Library.Multimap
import Seasocks.World

/-!
# Streaming responses

`StreamingResponse` and `SimpleResponse`, and the `std::istream` they read.
-/

namespace Seasocks

instance : Std.LawfulOrderLT Bytes := inferInstance

/-- `std::multimap<std::string, std::string>`. -/
abbrev Headers := Multimap Bytes Bytes

/-! ### Input streams -/

/-- A `std::istream` with the default exception mask. Behind what its buffer has ready is the end of the
file, or the buffer throws and the rest is lost. -/
structure IStream where
  ready : Bytes
  lost : Option Bytes
  eofbit : Bool
  failbit : Bool
  badbit : Bool
deriving DecidableEq, Repr

namespace IStream

def content (stream : IStream) : Bytes := stream.ready ++ stream.lost.getD []

def eof (stream : IStream) : Bool := stream.eofbit

def good (stream : IStream) : Bool := !(stream.eofbit || stream.failbit || stream.badbit)

/-- `read`, with the `gcount()` characters it stores. -/
def read (stream : IStream) (n : Nat) : Bytes × IStream :=
  if !stream.good then
    ([], { stream with failbit := true })
  else if n ≤ stream.ready.length then
    (stream.ready.take n, { stream with ready := stream.ready.drop n })
  else if stream.lost.isSome then
    -- the exception leaves gcount() at zero
    ([], { stream with ready := [], badbit := true })
  else
    (stream.ready, { stream with ready := [], eofbit := true, failbit := true })

end IStream

/-! ### `StreamingResponse` -/

/-- What the virtual functions return, and `closed`. -/
structure StreamingResponse where
  getStream : IStream
  getHeaders : Headers
  responseCode : ResponseCode
  keepConnectionAlive : Bool
  flushInstantly : Bool
  getBufferSize : Nat
  transferEncoding : TransferEncoding
  closed : Bool

namespace StreamingResponse

/-- The calls of the loop, with the stream it leaves, unless it takes more turns than there is fuel. -/
def copy (bufSize : Nat) (flush : Bool) : Nat → Bool → IStream → Option (List WriterCall × IStream)
  | _, true, stream => some ([], stream)
  | 0, false, _ => none
  | fuel + 1, false, stream =>
      let (buffer, stream) := stream.read bufSize
      let isEof := stream.eof
      let isGood := stream.good
      let calls := if isGood || isEof then [WriterCall.payload buffer flush] else []
      (copy bufSize flush fuel (!isGood) stream).map fun done => (calls ++ done.1, done.2)

def handle (fuel : Nat) (response : StreamingResponse) : Option (List WriterCall × StreamingResponse) :=
  (copy response.getBufferSize response.flushInstantly fuel response.closed response.getStream).map
    fun done =>
      (.begin response.responseCode response.transferEncoding
          :: response.getHeaders.entries.map (fun header => .header header.1 header.2)
          ++ done.1 ++ [.finish response.keepConnectionAlive],
        { response with getStream := done.2, closed := true })

def cancel (response : StreamingResponse) : StreamingResponse := { response with closed := true }

end StreamingResponse

/-! ### `SimpleResponse` -/

def DefaultBufferSize : Nat := 16 * 1024 * 1024

structure SimpleResponse where
  responseCode : ResponseCode
  stream : IStream
  headers : Headers
  keepAlive : Bool := true
  flushInstantly : Bool := false
  bufferSize : Nat := DefaultBufferSize
  transferEncoding : TransferEncoding := .raw

/-- A new `SimpleResponse`, as the `StreamingResponse` it is. -/
def SimpleResponse.streaming (response : SimpleResponse) : StreamingResponse :=
  { getStream := response.stream
    getHeaders := response.headers
    responseCode := response.responseCode
    keepConnectionAlive := response.keepAlive
    flushInstantly := response.flushInstantly
    getBufferSize := response.bufferSize
    transferEncoding := response.transferEncoding
    closed := false }

end Seasocks
