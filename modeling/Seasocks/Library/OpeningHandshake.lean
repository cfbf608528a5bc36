import Seasocks.Library.Base64
import Seasocks.Library.Fips180
import Seasocks.Library.HttpMessage
import Seasocks.Library.Separators

/-!
# The opening handshake

What a WebSocket client asks for, and the responses it goes on with (RFC 6455, 4.1 and 4.2.2).
-/

namespace OpeningHandshake

open HttpMessage

/-- A byte of a token; commas and blanks separate tokens. -/
def isTokenByte (byte : UInt8) : Bool := 33 ≤ byte && byte ≤ 126 && byte != 44

/-- What a client puts into its handshake: the Base64 text of a nonce of sixteen bytes, and the names of
the protocols and extensions it offers. -/
structure Client where
  key : List UInt8
  protocols : List (List UInt8)
  extensions : List (List UInt8)
  nonce : ∃ nonce, Base64.decode key = some nonce ∧ nonce.length = 16
  tokens : ∀ protocol ∈ protocols, protocol ≠ [] ∧ ∀ byte ∈ protocol, isTokenByte byte = true

def guid : List UInt8 := text "258EAFA5-E914-47DA-95CA-C5AB0DC85B11"

/-- The elements of a value that is a list. -/
def elements (value : List UInt8) : List (List UInt8) := (value.splitOn 44).map trim

/-- The value that offers some protocols falls apart into them. -/
theorem splitOn_intercalate (protocol : List UInt8) (protocols : List (List UInt8))
    (h : ∀ other ∈ protocol :: protocols, 44 ∉ other) :
    ([44, 32].intercalate (protocol :: protocols)).splitOn 44 = protocol :: protocols.map (List.cons 32) := by
  induction protocols generalizing protocol with
  | nil => rw [List.intercalate_singleton, List.splitOn_eq_singleton (h _ List.mem_cons_self)]; rfl
  | cons next protocols ih =>
      obtain ⟨hprotocol, hprotocols⟩ := List.forall_mem_cons.mp h
      rw [List.intercalate_cons_cons, List.append_assoc, List.cons_append, List.cons_append, List.nil_append,
        List.splitOn_append_cons_self_of_not_mem hprotocol, List.splitOn_cons_eq_if_modifyHead,
        ih next hprotocols]
      rfl

namespace Client

variable (client : Client)

def protocolList : Option (List UInt8) :=
  if client.protocols = [] then none else some ([44, 32].intercalate client.protocols)

/-- A request whose fields are the client's, by the value it has for a name. -/
structure Sends (field : List UInt8 → Option (List UInt8)) : Prop where
  key : field (text "Sec-WebSocket-Key") = some client.key
  protocols : field (text "Sec-WebSocket-Protocol") = client.protocolList

/-- The requirements on a response. Where there is no value for the extensions or the protocols, there is
none of them. -/
structure Accepts (head : Head) : Prop where
  status : head.status = 101
  upgrade : ∃ value ∈ head.values (text "Upgrade"), sameName value (text "websocket") = true
  connection : ∃ value ∈ head.values (text "Connection"),
    ∃ element ∈ elements value, sameName element (text "Upgrade") = true
  accept : head.values (text "Sec-WebSocket-Accept") =
    [Base64.encode (Fips180.digest (client.key ++ guid))]
  extensions : ∀ value ∈ head.values (text "Sec-WebSocket-Extensions"),
    ∀ element ∈ elements value, element ∈ client.extensions
  protocol : head.values (text "Sec-WebSocket-Protocol") = [] ∨
    ∃ protocol ∈ client.protocols, head.values (text "Sec-WebSocket-Protocol") = [protocol]

/-- A key is short. -/
theorem length_key : client.key.length ≤ 64 := by
  obtain ⟨nonce, hdecode, hlength⟩ := client.nonce
  have h := Base64.length_le_of_decode hdecode
  omega

end Client

end OpeningHandshake
