import Seasocks.Md5
import Seasocks.Output
import Seasocks.Sha1

/-!
# Digests

How the handshakes use `md5.cpp` and `sha1.cpp`. The objects are local variables, which hold whatever
was there before until they are initialised.
-/

namespace Seasocks

/-- The five words of `Result`, each through `htonl`. -/
def Sha1.Words.bytes (hash : Sha1.Words) : Bytes :=
  Output.networkBytes hash.a.toNat 4 ++ Output.networkBytes hash.b.toNat 4
    ++ Output.networkBytes hash.c.toNat 4 ++ Output.networkBytes hash.d.toNat 4
    ++ Output.networkBytes hash.e.toNat 4

/-- What `getAcceptKey` encodes; the length of the string is cast to `unsigned`. -/
def acceptHash (hasher : Sha1) (fullString : Bytes) : Bytes :=
  let hasher := hasher.reset.input (fullString.take (fullString.length % 2 ^ 32))
  match hasher.result.1 with
  | some hash => hash.bytes
  | none => []

/-- The digest of `handleWebSocketKey3`. -/
def key3Digest (md5state : Md5State) (md5Source : Bytes) : Bytes :=
  md5Finish (md5Append (md5Init md5state) md5Source)

namespace World

/-- A world whose digests are those of the source. -/
def withDigests (w : World) (hasher : Sha1) (md5state : Md5State) : World :=
  { w with
    md5 := key3Digest md5state
    sha1 := acceptHash hasher }

end World

end Seasocks
