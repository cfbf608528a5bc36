import Seasocks.Proof.Emission
import Seasocks.Proof.HeaderBlocks
import Seasocks.Proof.Serving

/-!
# Handshake responses

The header lines both handshakes send: which bytes of the request they echo, and to which requests an
accepting handshake is sent at all.
-/

namespace Seasocks

open Program Relation

variable {w : World} {o : Output}

/-! ### The lines of a response -/

namespace Output

def commonLines (w : World) (code : ResponseCode) (date : Bytes) : List Bytes :=
  [ascii "HTTP/1.1 " ++ decimal code.toNat ++ ascii " " ++ code.name,
    ascii "Server: " ++ w.version,
    ascii "Date: " ++ date,
    ascii "Access-Control-Allow-Origin: *"]

theorem renderLines_commonLines (code : ResponseCode) (date : Bytes) :
    renderLines (commonLines w code date) = commonHead w code date := by
  simp [renderLines, commonLines, commonHead]

theorem renderLines_singleton (line : Bytes) : renderLines [line] = line ++ crlf := by
  simp [crlf]

theorem bufferLine_lines (line : Bytes) :
    After (bufferLine w line) o fun _ o' => Emits (renderLines [line]) o o' := by
  rw [renderLines_singleton]
  exact bufferLine_emits line

theorem bufferText_lines (line : String) :
    After (bufferText w line) o fun _ o' => Emits (renderLines [ascii line]) o o' := by
  rw [renderLines_singleton]
  exact bufferText_emits line

theorem bufferResponseAndCommonHeaders_lines (code : ResponseCode) :
    After (bufferResponseAndCommonHeaders w code) o fun _ o' =>
      ∃ log, Emits (renderLines (commonLines w code (w.now log))) o o' := by
  simp only [renderLines_commonLines]
  exact bufferResponseAndCommonHeaders_emits code

/-- Lines behind lines. -/
theorem Emits.lines {lines lines' : List Bytes} {o' o'' : Output} (h : Emits (renderLines lines) o o')
    (h' : Emits (renderLines lines') o' o'') : Emits (renderLines (lines ++ lines')) o o'' := by
  rw [renderLines_append]
  exact h.trans h'

def protocolHeader : Bytes := ascii "Sec-WebSocket-Protocol"

/-- The protocols a request offers. -/
def protocols (request : PageRequest) : List Bytes :=
  (split (request.getHeader protocolHeader) 44).map trimWhitespace

/-- `chooseProtocol` returns the position of one of them. -/
def Chosen (w : World) (request : PageRequest) (handler : HandlerId) : Prop :=
  0 ≤ w.chooseProtocol handler (protocols request) ∧
    w.chooseProtocol handler (protocols request) < (protocols request).length

instance (w : World) (request : PageRequest) (handler : HandlerId) :
    Decidable (Chosen w request handler) := inferInstanceAs (Decidable (_ ∧ _))

/-- The line `pickProtocol` sends, if any. -/
def protocolLines (w : World) (request : PageRequest) (webSocketHandler : Option HandlerId) :
    List Bytes :=
  match webSocketHandler with
  | none => []
  | some handler =>
      if request.hasHeader protocolHeader then
        if Chosen w request handler then
          [protocolHeader ++ ascii ": "
            ++ (protocols request).getD (w.chooseProtocol handler (protocols request)).toNat []]
        else []
      else []

theorem pickProtocol_emits (request : PageRequest) (webSocketHandler : Option HandlerId) :
    After (pickProtocol w request webSocketHandler) o fun _ o' =>
      Emits (renderLines (protocolLines w request webSocketHandler)) o o' := by
  cases webSocketHandler with
  | none => exact Emits.refl o
  | some handler =>
      unfold pickProtocol protocolLines
      dsimp only
      rw [after_ite]
      refine ⟨fun hheader => ?_, fun hheader => ?_⟩
      · rw [if_pos (show request.hasHeader protocolHeader = true from hheader), after_ite]
        change (Chosen w request handler → _) ∧ (¬ Chosen w request handler → _)
        refine ⟨fun hchoice => ?_, fun hchoice => ?_⟩
        · rw [if_pos hchoice]
          exact (bufferLine_lines _).bind fun _ _ h => h
        · rw [if_neg hchoice]
          exact Emits.refl o
      · rw [if_neg (show ¬ request.hasHeader protocolHeader = true from hheader)]
        exact Emits.refl o

def upgradeLines : List Bytes := [ascii "Upgrade: websocket", ascii "Connection: Upgrade"]

def extensionLines (perMessageDeflate : Bool) : List Bytes :=
  if perMessageDeflate then [ascii "Sec-WebSocket-Extensions: permessage-deflate"] else []

/-- The header lines of `hybiHandshake`. -/
def hybiLines (w : World) (request : PageRequest) (webSocketHandler : Option HandlerId)
    (webSocketKey : Bytes) (perMessageDeflate : Bool) (date : Bytes) : List Bytes :=
  commonLines w .webSocketProtocolHandshake date ++ upgradeLines
    ++ [ascii "Sec-WebSocket-Accept: " ++ getAcceptKey w webSocketKey]
    ++ extensionLines perMessageDeflate ++ protocolLines w request webSocketHandler

theorem hybiHandshake_emits (request : PageRequest) (webSocketHandler : Option HandlerId)
    (webSocketKey : Bytes) (perMessageDeflate : Bool) :
    After (hybiHandshake w request webSocketHandler webSocketKey perMessageDeflate) o fun _ o' =>
      ∃ log, Emits (renderLines
        (hybiLines w request webSocketHandler webSocketKey perMessageDeflate (w.now log)) ++ crlf)
        o o' := by
  have last : ∀ {lines : List Bytes} {o₁ : Output}, Emits (renderLines lines) o o₁ →
      After (do
        pickProtocol w request webSocketHandler
        let _ ← bufferText w ""
        let _ ← flush w) o₁ fun _ o' =>
        Emits (renderLines (lines ++ protocolLines w request webSocketHandler) ++ crlf) o o' := by
    intro lines o₁ h₁
    refine (pickProtocol_emits _ _).bind fun _ o₂ h₂ => (bufferText_emits _).bind fun _ o₃ h₃ => ?_
    refine flush_emits.bind fun _ o₄ h₄ => ?_
    have hemits := ((h₁.lines h₂).trans h₃).trans h₄
    rw [List.append_nil] at hemits
    exact hemits
  refine (bufferResponseAndCommonHeaders_lines _).bind fun _ o₁ ⟨log, h₁⟩ => ?_
  refine (bufferText_lines _).bind fun _ o₂ h₂ => (bufferText_lines _).bind fun _ o₃ h₃ => ?_
  refine (bufferLine_lines _).bind fun _ o₄ h₄ => ?_
  have hemits : Emits (renderLines (commonLines w .webSocketProtocolHandshake (w.now log) ++ upgradeLines
      ++ [ascii "Sec-WebSocket-Accept: " ++ getAcceptKey w webSocketKey])) o o₄ := by
    have hlines := ((h₁.lines h₂).lines h₃).lines h₄
    rwa [List.append_assoc (commonLines _ _ _)] at hlines
  rw [after_ite]
  refine ⟨fun hdeflate => ?_, fun hdeflate => ?_⟩
  · refine (bufferText_lines _).bind fun _ o₅ h₅ => (last (hemits.lines h₅)).mono fun _ o₆ h₆ => ?_
    exact ⟨log, by rwa [hybiLines, extensionLines, if_pos hdeflate]⟩
  · refine (last hemits).mono fun _ o₆ h₆ => ⟨log, ?_⟩
    rwa [hybiLines, extensionLines, if_neg hdeflate, List.append_nil]

def originField : Bytes := ascii "Sec-WebSocket-Origin: "

/-- The lines of `hixieHandshake` that say whom the server talks to, and where. -/
def originLines (w : World) (request : PageRequest) : List Bytes :=
  let allowCrossOrigin := w.isCrossOriginAllowed request.requestUri
  (if request.hasHeader (ascii "Origin") && allowCrossOrigin then
      [originField ++ request.getHeader (ascii "Origin")] else []) ++
    if request.hasHeader (ascii "Host") then
      (if !allowCrossOrigin then
          [ascii "Sec-WebSocket-Origin: http://" ++ request.getHeader (ascii "Host")] else []) ++
        [ascii "Sec-WebSocket-Location: ws://" ++ request.getHeader (ascii "Host") ++ request.requestUri]
    else []

/-- The header lines of `hixieHandshake`. -/
def hixieLines (w : World) (request : PageRequest) (webSocketHandler : Option HandlerId)
    (date : Bytes) : List Bytes :=
  commonLines w .webSocketProtocolHandshake date ++ upgradeLines ++ originLines w request
    ++ protocolLines w request webSocketHandler

theorem hixieHandshake_emits (request : PageRequest) (webSocketHandler : Option HandlerId)
    (digest : Bytes) :
    After (hixieHandshake w request webSocketHandler digest) o fun _ o' =>
      ∃ log, Emits (renderLines (hixieLines w request webSocketHandler (w.now log)) ++ crlf ++ digest)
        o o' := by
  have last : ∀ {lines : List Bytes} {o₁ : Output}, Emits (renderLines lines) o o₁ →
      After (do
        pickProtocol w request webSocketHandler
        let _ ← bufferText w ""
        let _ ← Output.write w digest true) o₁ fun _ o' =>
        Emits (renderLines (lines ++ protocolLines w request webSocketHandler) ++ crlf ++ digest) o o' := by
    intro lines o₁ h₁
    refine (pickProtocol_emits _ _).bind fun _ o₂ h₂ => ?_
    refine ((bufferText_emits _).and (bufferText_buffered _)).bind fun _ o₃ h₃ => ?_
    refine (write_emits_of_buffered digest true ((h₁.lines h₂).trans h₃.1) ?_).bind fun _ _ h => h
    exact h₃.2.imp_left (h₁.lines h₂).fails
  have host : ∀ {lines : List Bytes} {o₁ : Output}, Emits (renderLines lines) o o₁ →
      After (do
        if request.hasHeader (ascii "Host") then
          let host := request.getHeader (ascii "Host")
          if !w.isCrossOriginAllowed request.requestUri then
            let _ ← bufferLine w (ascii "Sec-WebSocket-Origin: http://" ++ host)
          let _ ← bufferLine w (ascii "Sec-WebSocket-Location: ws://" ++ host ++ request.requestUri)
        pickProtocol w request webSocketHandler
        let _ ← bufferText w ""
        let _ ← Output.write w digest true) o₁ fun _ o' =>
        Emits (renderLines (lines ++ (if request.hasHeader (ascii "Host") then
            (if !w.isCrossOriginAllowed request.requestUri then
              [ascii "Sec-WebSocket-Origin: http://" ++ request.getHeader (ascii "Host")] else []) ++
            [ascii "Sec-WebSocket-Location: ws://" ++ request.getHeader (ascii "Host")
              ++ request.requestUri]
          else []) ++ protocolLines w request webSocketHandler) ++ crlf ++ digest) o o' := by
    intro lines o₁ h₁
    rw [after_ite]
    refine ⟨fun hhost => ?_, fun hhost => ?_⟩
    · rw [if_pos hhost]
      dsimp only
      rw [after_ite]
      refine ⟨fun hforeign => ?_, fun hforeign => ?_⟩
      · rw [if_pos hforeign]
        refine (bufferLine_lines _).bind fun _ o₂ h₂ => (bufferLine_lines _).bind fun _ o₃ h₃ => ?_
        rw [← List.append_assoc]
        exact last ((h₁.lines h₂).lines h₃)
      · rw [if_neg hforeign]
        refine (bufferLine_lines _).bind fun _ o₂ h₂ => ?_
        exact last (h₁.lines h₂)
    · rw [if_neg hhost, List.append_nil]
      exact last h₁
  refine (bufferResponseAndCommonHeaders_lines _).bind fun _ o₁ ⟨log, h₁⟩ => ?_
  refine (bufferText_lines _).bind fun _ o₂ h₂ => (bufferText_lines _).bind fun _ o₃ h₃ => ?_
  have hemits : Emits (renderLines
      (commonLines w .webSocketProtocolHandshake (w.now log) ++ upgradeLines)) o o₃ := by
    have hlines := (h₁.lines h₂).lines h₃
    rwa [List.append_assoc (commonLines _ _ _)] at hlines
  dsimp only
  rw [after_ite]
  refine ⟨fun horigin => ?_, fun horigin => ?_⟩
  · refine (bufferLine_lines _).bind fun _ o₄ h₄ => (host (hemits.lines h₄)).mono fun _ o₅ h₅ => ⟨log, ?_⟩
    rw [hixieLines, originLines, if_pos horigin, ← List.append_assoc (commonLines _ _ _ ++ upgradeLines)]
    exact h₅
  · refine (host hemits).mono fun _ o₅ h₅ => ⟨log, ?_⟩
    rw [hixieLines, originLines, if_neg horigin, List.nil_append]
    exact h₅

end Output

end Seasocks
