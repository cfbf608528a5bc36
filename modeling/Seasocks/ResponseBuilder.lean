import Seasocks.Ostream
import Seasocks.StreamingResponse
import Seasocks.StringUtil

/-!
# Synchronous responses

`SynchronousResponse`, and the `ResponseBuilder` that makes one.
-/

namespace Seasocks

/-! ### `SynchronousResponse` -/

/-- What the virtual functions return; a `ConcreteResponse` holds just this. -/
structure SynchronousResponse where
  responseCode : ResponseCode
  payload : Bytes
  contentType : Bytes
  keepConnectionAlive : Bool
  getAdditionalHeaders : Headers

/-- The calls made on the writer. The clock may move on from one of them to the next. -/
def SynchronousResponse.handle (now : List WriterCall → Bytes) (response : SynchronousResponse) :
    List WriterCall :=
  let rc := response.responseCode
  if !isOk rc then
    [.error rc response.payload]
  else
    let calls := [.begin rc .raw,
      .header (ascii "Content-Length") (decimal response.payload.length),
      .header (ascii "Content-Type") response.contentType,
      .header (ascii "Connection")
        (if response.keepConnectionAlive then ascii "keep-alive" else ascii "close")]
    let calls := calls ++ [.header (ascii "Last-Modified") (now calls),
      .header (ascii "Pragma") (ascii "no-cache")]
    let headers := response.getAdditionalHeaders
    let calls :=
      if headers.contains (ascii "Cache-Control") then calls
      else calls ++ [.header (ascii "Cache-Control") (ascii "no-store")]
    let calls :=
      if headers.contains (ascii "Expires") then calls
      else calls ++ [.header (ascii "Expires") (now calls)]
    let calls := calls ++ headers.entries.map fun header => .header header.1 header.2
    calls ++ [.payload response.payload true, .finish response.keepConnectionAlive]

/-! ### `ResponseBuilder` -/

structure ResponseBuilder where
  code : ResponseCode
  contentType : Bytes
  keepAlive : Bool
  headers : Headers
  stream : Ostream

namespace ResponseBuilder

def new (code : ResponseCode) : ResponseBuilder :=
  { code := code
    contentType := ascii "text/plain"
    keepAlive := true
    headers := Multimap.empty
    stream := Ostream.fresh }

variable (builder : ResponseBuilder)

def withContentType (contentType : Bytes) : ResponseBuilder := { builder with contentType }

def asHtml : ResponseBuilder := builder.withContentType (ascii "text/html")

def asText : ResponseBuilder := builder.withContentType (ascii "text/plain")

def asJson : ResponseBuilder := builder.withContentType (ascii "application/json")

def keepsConnectionAlive : ResponseBuilder := { builder with keepAlive := true }

def closesConnection : ResponseBuilder := { builder with keepAlive := false }

def addHeader (name value : Bytes) : ResponseBuilder :=
  { builder with headers := builder.headers.insert (name, value) }

def withHeader (name value : Bytes) : ResponseBuilder :=
  { builder with headers := (builder.headers.erase name).insert (name, value) }

def withLocation (location : Bytes) : ResponseBuilder := builder.withHeader (ascii "Location") location

def setsCookie (cookie value : Bytes) : ResponseBuilder :=
  builder.addHeader (ascii "Set-Cookie") (cookie ++ ascii "=" ++ value)

/-- `operator<<`, by what it does to the `std::ostringstream`. -/
def streams (write : Ostream → Ostream) : ResponseBuilder := { builder with stream := write builder.stream }

def build : SynchronousResponse :=
  { responseCode := builder.code
    payload := builder.stream.written
    contentType := builder.contentType
    keepConnectionAlive := builder.keepAlive
    getAdditionalHeaders := builder.headers }

end ResponseBuilder

/-- The calls of a `ResponseBuilder` that replace what they set, and `setsCookie`. -/
inductive BuilderCall where
  | asHtml
  | asText
  | asJson
  | withContentType (contentType : Bytes)
  | keepsConnectionAlive
  | closesConnection
  | withLocation (location : Bytes)
  | setsCookie (cookie value : Bytes)
  | withHeader (name value : Bytes)
  | streams (write : Ostream → Ostream)

def ResponseBuilder.call (builder : ResponseBuilder) : BuilderCall → ResponseBuilder
  | .asHtml => builder.asHtml
  | .asText => builder.asText
  | .asJson => builder.asJson
  | .withContentType contentType => builder.withContentType contentType
  | .keepsConnectionAlive => builder.keepsConnectionAlive
  | .closesConnection => builder.closesConnection
  | .withLocation location => builder.withLocation location
  | .setsCookie cookie value => builder.setsCookie cookie value
  | .withHeader name value => builder.withHeader name value
  | .streams write => builder.streams write

end Seasocks
