import Seasocks.Bytes

/-!
# Response codes

The table of `ResponseCodeDefs.h`, with the numbers and names it expands to.
-/

namespace Seasocks

inductive ResponseCode where
  | continue_ | webSocketProtocolHandshake | processing | checkpoint
  | ok | created | accepted | nonAuthoritativeInformation | noContent | resetContent
  | partialContent | multiStatus | alreadyReported | imUsed
  | multipleChoices | movedPermanently | found | seeOther | notModified | useProxy
  | switchProxy | temporaryRedirect | resumeIncomplete
  | badRequest | unauthorized | paymentRequired | forbidden | notFound | methodNotAllowed
  | upgradeRequired | internalServerError | notImplemented
deriving DecidableEq, Repr

/-- `static_cast<int>` of a response code. -/
def ResponseCode.toNat : ResponseCode → Nat
  | .continue_ => 100
  | .webSocketProtocolHandshake => 101
  | .processing => 102
  | .checkpoint => 103
  | .ok => 200
  | .created => 201
  | .accepted => 202
  | .nonAuthoritativeInformation => 203
  | .noContent => 204
  | .resetContent => 205
  | .partialContent => 206
  | .multiStatus => 207
  | .alreadyReported => 208
  | .imUsed => 226
  | .multipleChoices => 300
  | .movedPermanently => 301
  | .found => 302
  | .seeOther => 303
  | .notModified => 304
  | .useProxy => 305
  | .switchProxy => 306
  | .temporaryRedirect => 307
  | .resumeIncomplete => 308
  | .badRequest => 400
  | .unauthorized => 401
  | .paymentRequired => 402
  | .forbidden => 403
  | .notFound => 404
  | .methodNotAllowed => 405
  | .upgradeRequired => 426
  | .internalServerError => 500
  | .notImplemented => 501

def ResponseCode.name : ResponseCode → Bytes
  | .continue_ => ascii "Continue"
  | .webSocketProtocolHandshake => ascii "WebSocket Protocol Handshake"
  | .processing => ascii "Processing"
  | .checkpoint => ascii "Checkpoint"
  | .ok => ascii "OK"
  | .created => ascii "Created"
  | .accepted => ascii "Accepted"
  | .nonAuthoritativeInformation => ascii "Non Authoritative Information"
  | .noContent => ascii "No Content"
  | .resetContent => ascii "Reset Content"
  | .partialContent => ascii "Partial Content"
  | .multiStatus => ascii "Multi-Status"
  | .alreadyReported => ascii "Already Reported"
  | .imUsed => ascii "IM Used"
  | .multipleChoices => ascii "Multiple Choices"
  | .movedPermanently => ascii "Moved Permanently"
  | .found => ascii "Found"
  | .seeOther => ascii "See Other"
  | .notModified => ascii "Not Modified"
  | .useProxy => ascii "Use Proxy"
  | .switchProxy => ascii "Switch Proxy"
  | .temporaryRedirect => ascii "Temporary Redirect"
  | .resumeIncomplete => ascii "Resume Incomplete"
  | .badRequest => ascii "Bad Request"
  | .unauthorized => ascii "Unauthorized"
  | .paymentRequired => ascii "Payment Required"
  | .forbidden => ascii "Forbidden"
  | .notFound => ascii "Not Found"
  | .methodNotAllowed => ascii "Method Not Allowed"
  | .upgradeRequired => ascii "Upgrade Required"
  | .internalServerError => ascii "Internal Server Error"
  | .notImplemented => ascii "Not Implemented"

def isOk (code : ResponseCode) : Bool := code.toNat < 400

end Seasocks
