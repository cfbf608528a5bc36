import Seasocks.Run
import Seasocks.Proof.Decoder
import Seasocks.Proof.Callbacks
import Seasocks.Proof.Closing
import Seasocks.Proof.Escapes
import Seasocks.Proof.InputStream
import Seasocks.Proof.Bodies
import Seasocks.Proof.InputLimit
import Seasocks.Proof.Writers
import Seasocks.Proof.Responses
import Seasocks.Proof.PendingOutput
import Seasocks.Proof.ChunkedBody
import Seasocks.Proof.FrameRoundTrip
import Seasocks.Proof.Executables
import Seasocks.Proof.StaticFiles
import Seasocks.Proof.Recutting
import Seasocks.Proof.RangeBounds
import Seasocks.Proof.EchoedHeaders
import Seasocks.Proof.HixieHandshake
import Seasocks.Proof.PingAnswers
import Seasocks.Proof.HixieMessages
import Seasocks.Proof.Batches
import Seasocks.Proof.Answers
import Seasocks.Proof.ContentLengths
import Seasocks.Proof.HeadRequests
import Seasocks.Proof.Inflating
import Seasocks.Proof.WriteResults
import Seasocks.Proof.GracefulClose
import Seasocks.Proof.Compression
import Seasocks.Proof.ContentRanges
import Seasocks.Proof.CopyLoop
import Seasocks.Proof.HeaderRoundTrip
import Seasocks.Proof.ListHeaders
import Seasocks.Proof.ParserSafety
import Seasocks.Proof.RangeSpecs
import Seasocks.Proof.MessageSizes
import Seasocks.Proof.Replacing
import Seasocks.Proof.Base64
import Seasocks.Proof.UriRoundTrip
import Seasocks.Proof.Routing
import Seasocks.Proof.StreamingResponses
import Seasocks.Proof.ResponseHeaders
import Seasocks.Proof.JsonDocuments
import Seasocks.Proof.Endpoints
import Seasocks.Proof.Pipelining
import Seasocks.Library.Rfc1321
import Seasocks.Md5
import Seasocks.Library.Fips180
import Seasocks.Sha1
import Seasocks.Digests
import Seasocks.Proof.Md5
import Seasocks.Proof.Sha1
import Seasocks.Proof.Digests
import Seasocks.Library.OrderedSet
import Seasocks.Library.Reactor
import Seasocks.Library.HttpMessage
import Seasocks.Library.OpeningHandshake
import Seasocks.Hub
import Seasocks.Proof.Failures
import Seasocks.Proof.Conversations
import Seasocks.Proof.Leftovers
import Seasocks.Proof.ParsedRequests
import Seasocks.Proof.Openings
import Seasocks.Proof.Hub
import Seasocks.Proof.SampleHandlers
import Seasocks.Proof.Sessions
