import Seasocks.Library.OpeningHandshake
import Seasocks.Proof.Digests
import Seasocks.Proof.EchoedHeaders

/-!
# Responses to opening handshakes

A client that has sent a Hybi handshake reads the server's response as one it goes on with, and what the
server sends behind it as it was sent.
-/

namespace Seasocks

open HttpMessage OpeningHandshake

variable {w : World} {request : PageRequest} {client : Client}

/-! ### Lines -/

theorem base64Encode_letters (data : Bytes) :
    ∀ letter ∈ base64Encode data, letter ∈ Base64.alphabet ∨ letter = 61 := by
  obtain ⟨letters, hletters, hsame⟩ := Base64.encode_eq_letters data
  intro letter hletter
  rw [base64Encode_eq, hsame, List.mem_append] at hletter
  exact hletter.imp (hletters letter) List.eq_of_mem_replicate

theorem trim_base64Encode (data : Bytes) : trim (base64Encode data) = base64Encode data := by
  have hplain : ∀ letter ∈ Base64.alphabet, isBlank letter = false := by decide +kernel
  refine trim_eq_self fun letter hletter => ?_
  rcases base64Encode_letters data letter hletter with hmem | rfl
  · exact hplain letter hmem
  · rfl

/-- A byte of a token is a visible one. -/
theorem isspace_of_isTokenByte {byte : UInt8} (h : isTokenByte byte = true) : isspace byte = false := by
  rw [isTokenByte, Bool.and_eq_true, Bool.and_eq_true, decide_eq_true_eq, decide_eq_true_eq,
    UInt8.le_iff_toNat_le, UInt8.le_iff_toNat_le] at h
  rw [Bool.eq_false_iff, ne_eq, isspace_iff]
  have hlow : 33 ≤ byte.toNat := h.1.1
  omega

theorem isBlank_of_isTokenByte {byte : UInt8} (h : isTokenByte byte = true) : isBlank byte = false := by
  rw [Bool.eq_false_iff]
  intro hblank
  rw [isBlank, Bool.or_eq_true, beq_iff_eq, beq_iff_eq] at hblank
  rcases hblank with rfl | rfl <;> exact absurd h (by decide)

/-- A token behind a blank. -/
theorem trimWhitespace_token {token : Bytes} (h : ∀ byte ∈ token, isTokenByte byte = true) :
    trimWhitespace token = token ∧ trimWhitespace (32 :: token) = token := by
  have hfront : token.dropWhile isspace = token := by
    cases token with
    | nil => rfl
    | cons byte token =>
        rw [List.dropWhile_cons_of_neg (by simp [isspace_of_isTokenByte (h byte List.mem_cons_self)])]
  have hback : token.reverse.dropWhile isspace = token.reverse := by
    cases hreverse : token.reverse with
    | nil => rfl
    | cons byte more =>
        have hmem : byte ∈ token := List.mem_reverse.mp (hreverse ▸ List.mem_cons_self)
        rw [List.dropWhile_cons_of_neg (by simp [isspace_of_isTokenByte (h byte hmem)])]
  have hself : trimWhitespace token = token := by rw [trimWhitespace, hfront, hback, List.reverse_reverse]
  refine ⟨hself, ?_⟩
  rw [trimWhitespace, List.dropWhile_cons_of_pos (by decide)]
  exact hself

/-! ### What is offered -/

/-- The server reads the protocols as the client means them. -/
theorem protocols_of_sends (h : client.Sends request.headers.find) (hoffers : client.protocols ≠ []) :
    Output.protocols request = client.protocols := by
  obtain ⟨protocol, more, hcons⟩ := List.exists_cons_of_ne_nil hoffers
  have hvalue : request.getHeader Output.protocolHeader = [44, 32].intercalate client.protocols := by
    have hfind := h.protocols
    rw [Client.protocolList, if_neg hoffers] at hfind
    have hheader : request.headers.find Output.protocolHeader = some ([44, 32].intercalate client.protocols) :=
      hfind
    rw [PageRequest.getHeader, HeaderMap.get, hheader]
    rfl
  have hnocomma : ∀ other ∈ protocol :: more, 44 ∉ other := by
    intro other hother hcomma
    have htoken := (client.tokens other (hcons ▸ hother)).2 44 hcomma
    exact absurd htoken (by decide)
  have hsplit := splitOn_intercalate protocol more hnocomma
  have hne : [44, 32].intercalate (protocol :: more) ≠ [] := by
    intro hnil
    rw [hnil] at hsplit
    injection hsplit with hfirst
    exact (client.tokens protocol (hcons ▸ List.mem_cons_self)).1 hfirst.symm
  rw [Output.protocols, hvalue, hcons, split_eq_splitOn hne, hsplit, List.map_cons, List.map_map]
  congr 1
  · exact (trimWhitespace_token (client.tokens protocol (hcons ▸ List.mem_cons_self)).2).1
  · refine (List.map_congr_left fun other hother => ?_).trans (List.map_id more)
    exact (trimWhitespace_token (client.tokens other (hcons ▸ List.mem_cons_of_mem _ hother)).2).2

/-- The fields for the protocol: none, or one for a protocol that is offered. -/
def Offered (client : Client) (fields : List (Bytes × Bytes)) : Prop :=
  fields = [] ∨ ∃ protocol ∈ client.protocols, fields = [(Output.protocolHeader, protocol)]

theorem protocolLines_of_sends (h : client.Sends request.headers.find) (handler : Option HandlerId) :
    ∃ offered, Offered client offered ∧
      Output.protocolLines w request handler = offered.map HttpMessage.fieldLine := by
  cases handler with
  | none => exact ⟨[], Or.inl rfl, rfl⟩
  | some handler =>
      unfold Output.protocolLines
      dsimp only
      split_ifs with hheader hchosen
      · have hoffers : client.protocols ≠ [] := by
          intro hnone
          have hfind := h.protocols
          rw [Client.protocolList, if_pos hnone] at hfind
          have hmissing : request.headers.find Output.protocolHeader = none := hfind
          rw [PageRequest.hasHeader, HeaderMap.count, hmissing] at hheader
          cases hheader
        obtain ⟨hlow, hhigh⟩ := hchosen
        rw [protocols_of_sends h hoffers] at hlow hhigh ⊢
        have hindex : (w.chooseProtocol handler client.protocols).toNat < client.protocols.length := by omega
        refine ⟨[(Output.protocolHeader, _)], Or.inr ⟨_, List.getElem_mem hindex, rfl⟩, ?_⟩
        rw [List.getD_eq_getElem _ _ hindex, List.append_assoc]
        rfl
      · exact ⟨[], Or.inl rfl, rfl⟩
      · exact ⟨[], Or.inl rfl, rfl⟩

/-! ### The response -/

def openingFields (w : World) (date accept : Bytes) : List (Bytes × Bytes) :=
  [(ascii "Server", w.version), (ascii "Date", date), (ascii "Access-Control-Allow-Origin", ascii "*"),
    (ascii "Upgrade", ascii "websocket"), (ascii "Connection", ascii "Upgrade"),
    (ascii "Sec-WebSocket-Accept", accept)]

theorem hybiLines_eq (handler : Option HandlerId) (webSocketKey date : Bytes) :
    Output.hybiLines w request handler webSocketKey false date =
      ascii "HTTP/1.1 101 WebSocket Protocol Handshake" ::
        ((openingFields w date (getAcceptKey w webSocketKey)).map HttpMessage.fieldLine
          ++ Output.protocolLines w request handler) := by
  have hline : ∀ {own name : Bytes} (value : Bytes), own = name ++ [58, 32] →
      own ++ value = HttpMessage.fieldLine (name, value) := by
    rintro own name value rfl
    rw [HttpMessage.fieldLine, List.append_assoc]
    rfl
  have hserver : ascii "Server: " ++ w.version = HttpMessage.fieldLine (ascii "Server", w.version) :=
    hline _ (by decide +kernel)
  have hdate : ascii "Date: " ++ date = HttpMessage.fieldLine (ascii "Date", date) := hline _ (by decide +kernel)
  have haccept : ascii "Sec-WebSocket-Accept: " ++ getAcceptKey w webSocketKey =
      HttpMessage.fieldLine (ascii "Sec-WebSocket-Accept", getAcceptKey w webSocketKey) :=
    hline _ (by decide +kernel)
  have hown : Output.upgradeLines =
      [(ascii "Upgrade", ascii "websocket"), (ascii "Connection", ascii "Upgrade")].map
        HttpMessage.fieldLine := by decide +kernel
  have horigin : ascii "Access-Control-Allow-Origin: *" =
      HttpMessage.fieldLine (ascii "Access-Control-Allow-Origin", ascii "*") := by decide +kernel
  have hstatus : ascii "HTTP/1.1 " ++ decimal ResponseCode.webSocketProtocolHandshake.toNat ++ ascii " "
      ++ ResponseCode.webSocketProtocolHandshake.name = ascii "HTTP/1.1 101 WebSocket Protocol Handshake" := by
    decide +kernel
  rw [Output.hybiLines, Output.commonLines, Output.extensionLines, if_neg Bool.false_ne_true, List.append_nil,
    hserver, hdate, haccept, hown, horigin, hstatus]
  rfl

theorem fieldLine_isLine {name value : Bytes} (hname : cr ∉ name) (hvalue : cr ∉ value) :
    IsLine (HttpMessage.fieldLine (name, value)) := by
  apply isLine_of_not_mem
  rw [HttpMessage.fieldLine, List.mem_append, List.mem_cons, List.mem_cons]
  rintro (h | h | h | h)
  · exact hname h
  · cases h
  · cases h
  · exact hvalue h

variable {offered : List (Bytes × Bytes)}

theorem openingFields_isLine (hw : PlainTexts w) (log : List OutEvent) (hoffered : Offered client offered) :
    ∀ field ∈ openingFields w (w.now log) (getAcceptKey w client.key) ++ offered,
      58 ∉ field.1 ∧ IsLine (HttpMessage.fieldLine field) := by
  rw [List.forall_mem_append]
  constructor
  · simp only [openingFields, List.forall_mem_cons, List.not_mem_nil, false_imp_iff, implies_true, and_true]
    refine ⟨⟨by decide, fieldLine_isLine (by decide) hw.version.1⟩,
      ⟨by decide, fieldLine_isLine (by decide) (hw.date log).1⟩, by decide +kernel, by decide +kernel,
      by decide +kernel, by decide, fieldLine_isLine (by decide) fun hcr => ?_⟩
    exact (base64Encode_ne _ cr hcr).1 rfl
  · rcases hoffered with rfl | ⟨protocol, hmem, rfl⟩
    · simp
    · rw [List.forall_mem_singleton]
      refine ⟨show 58 ∉ Output.protocolHeader by decide, fieldLine_isLine (by decide) fun hcr => ?_⟩
      exact absurd ((client.tokens protocol hmem).2 cr hcr) (by decide)

theorem Offered.values_other (hoffered : Offered client offered) {name : Bytes}
    (hname : sameName Output.protocolHeader name = false) :
    Head.values ⟨101, offered.map written⟩ name = [] := by
  rcases hoffered with rfl | ⟨protocol, -, rfl⟩
  · rfl
  · rw [Head.values, List.map_singleton, List.filter_singleton, written, hname]
    rfl

theorem Offered.values_protocol (hoffered : Offered client offered) :
    Head.values ⟨101, offered.map written⟩ (text "Sec-WebSocket-Protocol") = [] ∨
      ∃ protocol ∈ client.protocols,
        Head.values ⟨101, offered.map written⟩ (text "Sec-WebSocket-Protocol") = [protocol] := by
  rcases hoffered with rfl | ⟨protocol, hmem, rfl⟩
  · exact Or.inl rfl
  · refine Or.inr ⟨protocol, hmem, ?_⟩
    have htrim : trim protocol = protocol := trim_eq_self fun byte hbyte =>
      isBlank_of_isTokenByte ((client.tokens protocol hmem).2 byte hbyte)
    have hone : Head.values ⟨101, [(Output.protocolHeader, protocol)].map written⟩
        (text "Sec-WebSocket-Protocol") = [trim protocol] := rfl
    rw [hone, htrim]

/-- A head with these fields is one that the client goes on with. -/
theorem openingFields_accepted (date : Bytes) {hasher : Sha1} (hblock : hasher.messageBlock.length = 64)
    (hsha1 : w.sha1 = acceptHash hasher) (hoffered : Offered client offered) :
    client.Accepts ⟨101, (openingFields w date (getAcceptKey w client.key) ++ offered).map written⟩ := by
  have hshort : (client.key ++ magicString).length < 2 ^ 32 := by
    have hlength := client.length_key
    have hmagic : magicString.length = 36 := by decide +kernel
    rw [List.length_append]
    omega
  let own : Head := ⟨101, (openingFields w date (getAcceptKey w client.key)).map written⟩
  rw [List.map_append]
  refine ⟨rfl, ⟨ascii "websocket", ?_, by decide⟩,
    ⟨ascii "Upgrade", ?_, ascii "Upgrade", by decide +kernel, by decide⟩, ?_, ?_, ?_⟩
  · rw [Head.values_append]
    exact List.mem_append_left _ (List.mem_singleton.mpr rfl)
  · rw [Head.values_append]
    exact List.mem_append_left _ (List.mem_singleton.mpr rfl)
  · have haccept : own.values (text "Sec-WebSocket-Accept") = [trim (getAcceptKey w client.key)] := rfl
    rw [Head.values_append, hoffered.values_other (by decide), List.append_nil, haccept, getAcceptKey,
      trim_base64Encode, base64Encode_eq, hsha1, acceptHash_eq hblock hshort]
    rfl
  · have hnone : own.values (text "Sec-WebSocket-Extensions") = [] := rfl
    rw [Head.values_append, hoffered.values_other (by decide), hnone]
    intro value hvalue
    cases hvalue
  · have hnone : own.values (text "Sec-WebSocket-Protocol") = [] := rfl
    rw [Head.values_append, hnone, List.nil_append]
    exact hoffered.values_protocol

/-- The client reads the response to its handshake as one that it goes on with, up to the byte where the
response ends. -/
theorem hybiLines_accepted (hw : PlainTexts w) {hasher : Sha1} (hblock : hasher.messageBlock.length = 64)
    (hsha1 : w.sha1 = acceptHash hasher) (h : client.Sends request.headers.find) (handler : Option HandlerId)
    (log : List OutEvent) (rest : Bytes) :
    ∃ head, readHead (renderLines (Output.hybiLines w request handler
        (request.getHeader (ascii "Sec-WebSocket-Key")) false (w.now log)) ++ crlf ++ rest) =
      some (head, rest) ∧ client.Accepts head := by
  have hkey : request.getHeader (ascii "Sec-WebSocket-Key") = client.key := by
    have hfind : request.headers.find (ascii "Sec-WebSocket-Key") = some client.key := h.key
    rw [PageRequest.getHeader, HeaderMap.get, hfind]
    rfl
  obtain ⟨offered, hoffered, hlines⟩ := protocolLines_of_sends (w := w) h handler
  have haccepts := openingFields_accepted (w.now log) hblock hsha1 hoffered
  refine ⟨_, ?_, haccepts⟩
  rw [hkey, hybiLines_eq, hlines, ← List.map_append]
  exact (congrArg readHead (List.append_assoc ..)).trans
    (readHead_join (by decide +kernel) (by decide +kernel) (openingFields_isLine hw log hoffered) rest)

end Seasocks
