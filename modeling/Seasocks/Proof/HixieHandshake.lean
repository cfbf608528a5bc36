import Seasocks.Proof.InputStream
import Seasocks.Proof.Responses
import Seasocks.Proof.Upgrades

/-!
# The Hixie handshake

The key numbers of a client's handshake are read as they were drawn, whatever the noise between the
digits. But without a version in the request the server does not get as far as looking at them.
-/

namespace Seasocks

open Program Relation

/-! ### Key numbers -/

/-- A key for `number`: the digits of its product with the number of spaces, with these spaces and other
printable characters between them. -/
structure DrawnKey (number spaces : Nat) (key : Bytes) : Prop where
  digits : key.filter isdigit = decimal (number * spaces)
  blanks : key.count 32 = spaces
  positive : 1 ≤ spaces
  bounded : number * spaces < 2 ^ 32
  printable : ∀ c ∈ key, 32 ≤ c ∧ c ≤ 126
  inner : key.head? ≠ some 32 ∧ key.getLast? ≠ some 32

theorem digit_toNat {c : UInt8} (h : isdigit c = true) :
    48 ≤ c.toNat ∧ (c.toUInt32 - 48).toNat = c.toNat - 48 := by
  simp only [isdigit, Bool.and_eq_true, decide_eq_true_eq, UInt8.le_iff_toNat_le] at h
  have hlow : 48 ≤ c.toNat := h.1
  refine ⟨hlow, ?_⟩
  have hle : (48 : UInt32) ≤ c.toUInt32 := by
    rw [UInt32.le_iff_toNat_le, UInt8.toNat_toUInt32]
    exact hlow
  rw [UInt32.toNat_sub_of_le _ _ hle, UInt8.toNat_toUInt32]
  rfl

/-- The accumulator wraps around, so it holds the value of the digits modulo `2 ^ 32`. -/
theorem webSocketKeyNumbers_toNat (key : Bytes) (keyNumber numSpaces : UInt32) :
    (webSocketKeyNumbers key (keyNumber, numSpaces)).1.toNat =
        ((key.filter isdigit).foldl (fun value digit => value * 10 + (digit.toNat - 48))
          keyNumber.toNat) % 2 ^ 32 ∧
      (webSocketKeyNumbers key (keyNumber, numSpaces)).2.toNat =
        (numSpaces.toNat + key.count 32) % 2 ^ 32 := by
  have wraps : ∀ (digits : Bytes) (value value' : Nat), value % 2 ^ 32 = value' % 2 ^ 32 →
      (digits.foldl (fun value digit => value * 10 + (digit.toNat - 48)) value) % 2 ^ 32 =
        (digits.foldl (fun value digit => value * 10 + (digit.toNat - 48)) value') % 2 ^ 32 := by
    intro digits
    induction digits with
    | nil => exact fun _ _ => id
    | cons digit digits ih => exact fun _ _ h => ih _ _ (by dsimp only; omega)
  induction key generalizing keyNumber numSpaces with
  | nil =>
      refine ⟨?_, ?_⟩
      · exact (Nat.mod_eq_of_lt keyNumber.toNat_lt).symm
      · exact (Nat.mod_eq_of_lt numSpaces.toNat_lt).symm
  | cons c key ih =>
      rw [webSocketKeyNumbers]
      by_cases hdigit : isdigit c = true
      · have hblank : c ≠ 32 := by
          rintro rfl
          exact absurd hdigit (by decide)
        obtain ⟨hnumber, hspaces⟩ := ih (keyNumber * 10 + (c.toUInt32 - 48)) numSpaces
        rw [if_pos hdigit, List.filter_cons_of_pos hdigit, List.foldl_cons,
          List.count_cons_of_ne hblank]
        refine ⟨hnumber.trans (wraps _ _ _ ?_), hspaces⟩
        rw [UInt32.toNat_add, UInt32.toNat_mul, (digit_toNat hdigit).2]
        have hten : (10 : UInt32).toNat = 10 := rfl
        rw [hten]
        omega
      · rw [if_neg hdigit, List.filter_cons_of_neg hdigit]
        by_cases hblank : c = 32
        · obtain ⟨hnumber, hspaces⟩ := ih keyNumber (numSpaces + 1)
          rw [if_pos hblank, hblank, List.count_cons_self]
          refine ⟨hnumber, hspaces.trans ?_⟩
          have hone : (1 : UInt32).toNat = 1 := rfl
          rw [UInt32.toNat_add, hone]
          omega
        · rw [if_neg hblank, List.count_cons_of_ne hblank]
          exact ih keyNumber numSpaces

/-- A key is read as the number it was drawn for. -/
theorem parseWebSocketKey_drawn {number spaces : Nat} {key : Bytes} (h : DrawnKey number spaces key) :
    parseWebSocketKey key = UInt32.ofNat number := by
  obtain ⟨hnumber, hspaces⟩ := webSocketKeyNumbers_toNat key 0 0
  have hvalue : (key.filter isdigit).foldl (fun value digit => value * 10 + (digit.toNat - 48))
      (0 : UInt32).toNat = number * spaces := by
    rw [h.digits]
    exact digitsValue_decimal _
  have hzero : (0 : UInt32).toNat = 0 := rfl
  rw [hvalue, Nat.mod_eq_of_lt h.bounded] at hnumber
  rw [h.blanks, hzero, Nat.zero_add] at hspaces
  have hpositive := h.positive
  have hbounded := h.bounded
  rw [parseWebSocketKey]
  apply UInt32.toNat_inj.mp
  rcases Nat.eq_zero_or_pos number with hnone | hsome
  · -- a number of 0 has the product 0, however many spaces there are
    rw [hnone, Nat.zero_mul] at hnumber
    rw [hnone]
    dsimp only
    split_ifs
    · rw [UInt32.toNat_div, hnumber, Nat.zero_div]
      rfl
    · rfl
  · have hfew : spaces < 2 ^ 32 :=
      Nat.lt_of_le_of_lt (Nat.le_mul_of_pos_left spaces hsome) hbounded
    have hnumberFew : number < 2 ^ 32 :=
      Nat.lt_of_le_of_lt (Nat.le_mul_of_pos_right number hpositive) hbounded
    rw [Nat.mod_eq_of_lt hfew] at hspaces
    have hcounted : (webSocketKeyNumbers key (0, 0)).2 > 0 := by
      rw [gt_iff_lt, UInt32.lt_iff_toNat_lt, hspaces]
      exact hpositive
    dsimp only
    rw [if_pos hcounted, UInt32.toNat_div, hnumber, hspaces, Nat.mul_div_cancel _ hpositive,
      UInt32.toNat_ofNat', Nat.mod_eq_of_lt hnumberFew]

/-! ### The headers of fields with different names -/

theorem find_headersOf {fields : List (Bytes × Bytes)} {field : Bytes × Bytes}
    (hdistinct : fields.Pairwise fun field field' => caseInsensitiveSame field.1 field'.1 = false)
    (hfield : field ∈ fields) : (headersOf HeaderMap.empty fields).find field.1 = some field.2 := by
  have hempty : HeaderMap.empty.find field.1 = none := rfl
  rw [find_headersOf_eq, hempty, Option.none_or]
  induction fields with
  | nil => cases hfield
  | cons first fields ih =>
      rw [List.pairwise_cons] at hdistinct
      rcases List.mem_cons.mp hfield with rfl | hmem
      · have hsame : caseInsensitiveSame field.1 field.1 = true := caseInsensitiveSame_iff.mpr rfl
        rw [List.find?_cons, hsame]
        rfl
      · rw [List.find?_cons_of_neg (by simp [hdistinct.1 field hmem])]
        exact ih hdistinct.2 hmem

theorem find_headersOf_none {fields : List (Bytes × Bytes)} {name : Bytes}
    (hnone : ∀ field ∈ fields, caseInsensitiveSame field.1 name = false) :
    (headersOf HeaderMap.empty fields).find name = none := by
  have hempty : HeaderMap.empty.find name = none := rfl
  rw [find_headersOf_eq, hempty, Option.none_or, Option.map_eq_none_iff, List.find?_eq_none]
  intro field hfield
  rw [hnone field hfield]
  exact Bool.false_ne_true

/-! ### Handshakes -/

def versionField : Bytes := ascii "Sec-WebSocket-Version"

/-- A client's handshake: the numbers it has drawn with their keys, the request, and the bytes behind
it. -/
structure ClientHandshake where
  number₁ : Nat
  spaces₁ : Nat
  key₁ : Bytes
  number₂ : Nat
  spaces₂ : Nat
  key₂ : Bytes
  requestUri : Bytes
  fields : List (Bytes × Bytes)
  key₃ : Bytes
  drawn₁ : DrawnKey number₁ spaces₁ key₁
  drawn₂ : DrawnKey number₂ spaces₂ key₂
  uri : RequestParser.Word requestUri
  plain : ∀ field ∈ fields, PlainField field
  distinct : fields.Pairwise fun field field' => caseInsensitiveSame field.1 field'.1 = false
  upgrade : (ascii "Upgrade", ascii "WebSocket") ∈ fields
  connection : (ascii "Connection", ascii "Upgrade") ∈ fields
  secKey₁ : (ascii "Sec-WebSocket-Key1", key₁) ∈ fields
  secKey₂ : (ascii "Sec-WebSocket-Key2", key₂) ∈ fields
  noVersion : ∀ field ∈ fields, caseInsensitiveSame field.1 versionField = false
  length₃ : key₃.length = 8

namespace ClientHandshake

open Connection

variable {w : World} {c : Connection} (h : ClientHandshake)

/-- The header block, with the blank line behind it. -/
def block : Bytes := renderLines (requestLines h.requestUri h.fields) ++ crlf

def text : Bytes := h.block ++ h.key₃

def headers : HeaderMap := headersOf HeaderMap.empty h.fields

/-- The bytes the client expects behind the response headers. -/
def digest (w : World) : Bytes :=
  w.md5 (Output.networkBytes h.number₁ 4 ++ Output.networkBytes h.number₂ 4 ++ h.key₃)

/-- The connection gets to `HANDLING_HIXIE_WEBSOCKET` and has sent the digest behind the headers. -/
def Succeeds (w : World) (events : List Event) : Prop :=
  ∃ c, run w events fresh = .ok c ∧ c.state = .handlingHixieWebSocket ∧
    ∃ lines rest, Output.emitted c.out = renderLines lines ++ crlf ++ h.digest w ++ rest

/-! ### What the server reads -/

theorem block_parse : ∃ memory',
    RequestParser.block.run (renderLines (requestLines h.requestUri h.fields)) =
      .ok (.get, h.requestUri, h.headers) memory' := RequestParser.block_run h.uri h.plain

theorem find_block (rest : Bytes) :
    find (crlf ++ crlf) (h.block ++ rest) = some (h.block.length - 4) := by
  have hlines : ∀ line ∈ requestLines h.requestUri h.fields, line ≠ [] ∧ cr ∉ line := by
    intro line hline
    rw [requestLines, List.mem_cons, List.mem_map] at hline
    rcases hline with rfl | ⟨field, hfield, rfl⟩
    · exact ⟨by simp [ascii], h.uri.cr_not_mem⟩
    · exact ⟨by simp [fieldLine], (h.plain field hfield).cr_not_mem⟩
  have hne : requestLines h.requestUri h.fields ≠ [] := List.cons_ne_nil _ _
  have hfind := find_blank hne hlines rest
  have hcrlf : crlf.length = 2 := rfl
  rw [block, List.append_assoc]
  refine hfind.trans (congrArg some ?_)
  rw [List.length_append, hcrlf]
  omega

theorem four_le_length : 4 ≤ h.block.length := by
  have := length_of_find (h.find_block []) (by simp [crlf])
  simpa [crlf] using (show (crlf ++ crlf).length ≤ _ from Nat.le_trans (Nat.le_add_left _ _) this)

/-- Before the block is complete there is no blank line. -/
theorem find_part {part : Bytes} (hpart : part <+: h.block) (hlength : part.length < h.block.length) :
    find (crlf ++ crlf) part = none := by
  cases hfind : find (crlf ++ crlf) part with
  | none => rfl
  | some i =>
      obtain ⟨rest, hrest⟩ := hpart
      have hwhole := find_append hfind rest
      rw [hrest] at hwhole
      have hblock := h.find_block []
      rw [List.append_nil, hwhole] at hblock
      injection hblock with hblock
      have := length_of_find hfind (by simp [crlf])
      rw [show (crlf ++ crlf).length = 4 from rfl] at this
      have := h.four_le_length
      omega

theorem isUpgrade_headers : isUpgrade h.headers = true := by
  have hconnection : h.headers.find (ascii "Connection") = some (ascii "Upgrade") :=
    find_headersOf h.distinct h.connection
  have hupgrade : h.headers.find (ascii "Upgrade") = some (ascii "WebSocket") :=
    find_headersOf h.distinct h.upgrade
  simp only [isUpgrade, HeaderMap.count, HeaderMap.get, hconnection, hupgrade]
  decide +kernel

/-- A request that comes to no handshake. -/
structure Hopeless (request : PageRequest) : Prop where
  verb : request.verb = .webSocket
  version : ∃ e, webSocketVersion request = .error e

theorem hopeless_create : Hopeless (PageRequest.create h.requestUri .webSocket h.headers) := by
  refine ⟨rfl, .invalidArgument, ?_⟩
  have hnone : h.headers.find versionField = none := find_headersOf_none h.noVersion
  change stoi (h.headers.get versionField) = _
  rw [HeaderMap.get, hnone]
  rfl

/-! ### The answer to the keys -/

theorem networkKey_drawn {number spaces : Nat} {key : Bytes} (hdrawn : DrawnKey number spaces key) :
    networkKey (parseWebSocketKey key) = Output.networkBytes number 4 := by
  have hbounded : number < 2 ^ 32 :=
    Nat.lt_of_le_of_lt (Nat.le_mul_of_pos_right number hdrawn.positive) hdrawn.bounded
  rw [networkKey, parseWebSocketKey_drawn hdrawn, UInt32.toNat_ofNat', Nat.mod_eq_of_lt hbounded]

/-- Where the last eight bytes are awaited, the server answers them with the digest. -/
theorem handleWebSocketKey3_answers {request : PageRequest} {rest : Bytes}
    (hrequest : c.request = some request) (hheaders : request.headers = h.headers)
    (hinBuf : c.inBuf = h.key₃ ++ rest) :
    Ends (handleWebSocketKey3 w) c (fun _ c' => c'.state = .handlingHixieWebSocket ∧ c'.inBuf = rest ∧
      ∃ lines out, Output.Emits (renderLines lines ++ crlf ++ h.digest w) c.out out ∧
        ReflTransGen (Output.OpStep w) out c'.out) fun _ _ => False := by
  have hkey₁ : request.getHeader (ascii "Sec-WebSocket-Key1") = h.key₁ := by
    rw [PageRequest.getHeader, hheaders, HeaderMap.get, headers, find_headersOf h.distinct h.secKey₁]
    rfl
  have hkey₂ : request.getHeader (ascii "Sec-WebSocket-Key2") = h.key₂ := by
    rw [PageRequest.getHeader, hheaders, HeaderMap.get, headers, find_headersOf h.distinct h.secKey₂]
    rfl
  have htake : c.inBuf.take 8 = h.key₃ := by
    rw [hinBuf]
    exact List.take_left' h.length₃
  have hdrop : c.inBuf.drop 8 = rest := by
    rw [hinBuf]
    exact List.drop_left' h.length₃
  have hlength : 8 ≤ c.inBuf.length := by
    rw [hinBuf, List.length_append, h.length₃]
    omega
  rw [handleWebSocketKey3, ends_bind, ends_get, if_pos hlength, ends_bind, theRequest, ends_bind,
    ends_get, hrequest, ends_pure, hkey₁, hkey₂]
  dsimp only
  rw [networkKey_drawn h.drawn₁, networkKey_drawn h.drawn₂, htake, record, ends_bind, ends_modify,
    ends_bind, ends_liftOut]
  apply (Output.hixieHandshake_emits _ _ _).mono
  rintro - out ⟨log, hemits⟩
  rw [startHixie, ends_bind, ends_modify, ends_bind, ends_get]
  dsimp only
  cases c.webSocketHandler with
  | none => exact ⟨rfl, hdrop, _, out, hemits, ReflTransGen.refl⟩
  | some handler =>
      refine (callHandler_ends _ _ _).mono (fun _ c' hsends => ?_) fun _ _ => id
      obtain ⟨out', calls, rfl, hout, -⟩ := hsends.frame
      exact ⟨rfl, hdrop, _, out, hemits, hout⟩

/-! ### A request without a version -/

/-- What does not return has no meaning: no exception is thrown. -/
def Undefined (e : Exn) (_ : Connection) : Prop := ∃ f, e = .fault f

theorem sendError_defined (responseCode : ResponseCode) (body : Bytes) (c : Connection) :
    Ends (sendError w responseCode body) c (fun _ _ => True) Undefined := by
  rw [sendError, ends_bind, ends_get, ends_ite]
  refine ⟨fun _ => ends_fault.mpr ⟨_, rfl⟩, fun _ => ?_⟩
  rw [ends_liftOut]
  exact After.of_forall fun _ _ => trivial

theorem send404_defined (c : Connection) : Ends (send404 w) c (fun _ _ => True) Undefined := by
  rw [send404, ends_bind, ends_get]
  dsimp only
  cases w.embeddedContent c.getRequestUri with
  | some embedded =>
      dsimp only
      rw [ends_liftOut]
      exact After.of_forall fun _ _ => trivial
  | none =>
      dsimp only
      rw [ends_ite]
      refine ⟨fun _ => ?_, fun _ => sendError_defined _ _ _⟩
      rw [ends_liftOut]
      exact After.of_forall fun _ _ => trivial

/-- No handshake has been begun, and none will be with the request there is. -/
structure Declining (c : Connection) : Prop where
  notUpgraded : NotUpgraded c.state
  hopeless : ∀ request, c.request = some request → Hopeless request

theorem Declining.refused {c c' : Connection} (hc : Declining c) (hrefused : Refused c c') :
    Declining c' :=
  ⟨hrefused.notUpgraded, fun request hrequest => hc.hopeless request (hrefused.sameRequest ▸ hrequest)⟩

/-- What a step makes of a connection that declines: it still does, with the same input. -/
def Declines (m : ConnM Bool) (c : Connection) : Prop :=
  Ends m c (fun _ c' => Declining c' ∧ c'.inBuf = c.inBuf) Undefined

theorem declines_of_writes {m : ConnM Bool} (hc : Declining c)
    (hwrites : Steps (WriteStep w) Thrown m c)
    (hdefined : Ends m c (fun _ _ => True) Undefined) : Declines m c := by
  refine ((refused_of_writes hwrites hc.notUpgraded).and hdefined).mono ?_ fun _ _ => And.right
  exact fun _ c' hboth => ⟨hc.refused hboth.1, hboth.1.sameBuffer⟩

theorem sendError_declines (responseCode : ResponseCode) (body : Bytes) (hc : Declining c) :
    Declines (sendError w responseCode body) c :=
  declines_of_writes hc (sendError_writes _ _ _) (sendError_defined _ _ _)

theorem send404_declines (hc : Declining c) : Declines (send404 w) c :=
  declines_of_writes hc (send404_writes _) (send404_defined _)

theorem handlePageRequest_declines {request : PageRequest} (hc : Declining c)
    (hrequest : c.request = some request) : Declines (handlePageRequest w) c := by
  have hhopeless := hc.hopeless request hrequest
  obtain ⟨e, hversion⟩ := hhopeless.version
  have hdefined : Ends (handlePageRequest w) c (fun _ _ => True) Undefined := by
    rw [handlePageRequest, ends_bind, theRequest, ends_bind, ends_get, hrequest, ends_pure, ends_bind,
      ends_get]
    dsimp only
    rw [record, ends_bind, ends_modify]
    cases w.handle c.calls request with
    | throws | throwsUnknown => exact sendError_defined _ _ _
    | response response =>
        dsimp only [sendResponse]
        rw [handleResponse, ends_bind, ends_get, ends_ite]
        refine ⟨fun _ => ends_fault.mpr ⟨_, rfl⟩, fun _ => ?_⟩
        rw [ends_bind, ends_modify, ends_bind]
        have hcalls : ∀ c, Ends (forM response.calls (writerCall w)) c (fun _ _ => True)
            fun _ _ => False := fun c =>
          ends_forM (fun call _ c _ => writerCall_returns call c) trivial
        exact (hcalls _).mono (fun _ _ _ => trivial) fun _ _ => False.elim
    | unhandled =>
        dsimp only
        rw [if_pos hhopeless.verb, handleUpgrade, ends_bind, ends_modify, ← webSocketVersion, hversion]
        exact sendError_defined _ _ _
  refine ((handlePageRequest_upgraded hrequest hhopeless.verb hc.notUpgraded).and hdefined).mono ?_
    fun _ _ => And.right
  rintro accepted c' ⟨⟨hupgraded, -⟩, -⟩
  refine ⟨⟨⟨fun hkey => ?_, hupgraded.hixie, fun hhybi => ?_⟩, ?_⟩, hupgraded.sameBuffer⟩
  · have hzero := hupgraded.key hkey
    rw [hversion] at hzero
    cases hzero
  · have hasks := hupgraded.hybi hhybi
    rw [AsksForHybi, hversion] at hasks
    rcases hasks with hasks | hasks <;> cases hasks
  · exact fun request' hrequest' => hc.hopeless request' (hupgraded.sameRequest ▸ hrequest')

theorem parsePerMessageDeflateHeader_ends (header : Bytes) (c : Connection) :
    Ends (parsePerMessageDeflateHeader header) c (fun _ c' =>
      c'.state = c.state ∧ c'.request = c.request ∧ c'.inBuf = c.inBuf) fun _ _ => False := by
  refine ends_forM ?_ ⟨rfl, rfl, rfl⟩
  intro extField _ c' hc'
  rw [ends_ite]
  exact ⟨fun _ => hc', fun _ => hc'⟩

theorem processRequest_declines (hstate : c.state = .readingHeaders) :
    Declines (processRequest w .webSocket h.requestUri h.headers) c := by
  let request := PageRequest.create h.requestUri .webSocket h.headers
  have hnew : Declining { c with request := some request } := by
    refine ⟨hstate ▸ notUpgraded_readingHeaders, fun request' hrequest' => ?_⟩
    injection hrequest' with hrequest'
    exact hrequest' ▸ h.hopeless_create
  rw [Declines, processRequest, ends_bind, ends_modify, ends_ite, ends_ite]
  refine ⟨fun _ => sendError_declines _ _ hnew, fun _ => ⟨fun _ => ?_, fun _ => ?_⟩⟩
  · exact handlePageRequest_declines hnew rfl
  · simp only [setState, ends_bind, ends_modify, ends_pure]
    exact ⟨⟨⟨by simp, by simp, by simp⟩, hnew.hopeless⟩, trivial⟩
  · exact fun embedded hverb => by cases hverb
  · exact fun embedded hverb => by cases hverb

theorem processParsed_declines (hstate : c.state = .readingHeaders) (hc : Declining c) :
    Declines (processParsed w .get h.requestUri h.headers) c := by
  rw [Declines, processParsed, if_pos h.isUpgrade_headers, if_neg (by simp), ends_bind, ends_modify,
    ends_ite]
  refine ⟨fun _ => ?_, fun _ => ?_⟩
  · exact send404_declines (c := { c with webSocketHandler := _ }) ⟨hc.notUpgraded, hc.hopeless⟩
  · have process : ∀ c' : Connection, c'.state = c.state → c'.inBuf = c.inBuf →
        Ends (processRequest w .webSocket h.requestUri h.headers) c'
          (fun _ c'' => Declining c'' ∧ c''.inBuf = c.inBuf) Undefined := fun c' hsame hbuffer =>
      hbuffer ▸ h.processRequest_declines (hsame.trans hstate)
    split_ifs
    · rw [ends_bind]
      refine (parsePerMessageDeflateHeader_ends _ _).mono ?_ fun _ _ => False.elim
      exact fun _ c' hc' => process c' hc'.1 hc'.2.2
    · exact process _ rfl rfl

/-! ### The header block -/

/-- Once the whole block is there, it is taken, unless the connection is closed over it. -/
theorem handleHeaders_block {rest : Bytes} (hstate : c.state = .readingHeaders) (hc : Declining c)
    (hinBuf : c.inBuf = h.block ++ rest) :
    Ends (handleHeaders w) c (fun goOn c' => Declining c' ∧
      (c'.inBuf = rest ∨ c'.closed = true ∧ goOn = false)) Undefined := by
  obtain ⟨memory, hparse⟩ := h.block_parse
  have hfour := h.four_le_length
  have hcrlf : crlf.length = 2 := rfl
  have hblock : h.block.length = (renderLines (requestLines h.requestUri h.fields)).length + 2 := by
    rw [block, List.length_append, hcrlf]
  have htake : c.inBuf.take (h.block.length - 4 + 2) =
      renderLines (requestLines h.requestUri h.fields) := by
    rw [hinBuf, block, List.append_assoc]
    exact List.take_left' (by rw [← block]; omega)
  have hmemory : memory.length = h.block.length - 2 := by
    have hlength := RequestParser.block_length (renderLines (requestLines h.requestUri h.fields))
    rw [ends_of_run_ok hparse] at hlength
    omega
  rw [handleHeaders, ends_bind, ends_get, hinBuf, h.find_block rest]
  dsimp only
  rw [record, ends_bind, ends_modify, ends_bind, processHeaders, ends_bind, ends_get]
  dsimp only
  rw [htake, hparse]
  dsimp only
  rw [ends_bind, ends_set]
  have hprocess : ∀ c₁ : Connection, c₁.state = c.state → c₁.request = c.request →
      Declines (processParsed w .get h.requestUri h.headers) c₁ := fun c₁ hsame hrequest =>
    h.processParsed_declines (hsame.trans hstate) ⟨hsame ▸ hc.notUpgraded, hrequest ▸ hc.hopeless⟩
  refine (hprocess _ (by rfl) (by rfl)).mono ?_ fun _ _ => id
  rintro accepted c' ⟨hdeclining, hbuffer⟩
  rw [ends_ite]
  refine ⟨fun _ => ?_, fun _ => ?_⟩
  · rw [ends_bind, ends_modify, ends_pure]
    refine ⟨⟨hdeclining.notUpgraded, hdeclining.hopeless⟩, Or.inl ?_⟩
    dsimp only
    rw [hbuffer]
    dsimp only
    have hlast : h.block.length - 4 + 4 = memory.length + 2 := by omega
    rw [hlast, List.drop_append, List.drop_eq_nil_of_le (by omega), List.nil_append, List.drop_drop,
      hinBuf]
    exact List.drop_left' (by omega)
  · rw [ends_bind, closeInternal, ends_liftOut]
    refine (Output.closeInternal_closes _).mono fun _ out hout => ?_
    exact ⟨⟨hdeclining.notUpgraded, hdeclining.hopeless⟩, Or.inr ⟨hout.2, rfl⟩⟩

/-! ### What is left after the block -/

/-- The request has been declined, and of the handshake no more than the last eight bytes are left. -/
structure Declined (w : World) (c : Connection) : Prop where
  declining : Declining c
  short : c.inBuf.length ≤ 8
  body : BodyAwaited w c

/-- So few bytes are no header block, whatever they are. -/
theorem handleHeaders_declined (hc : Declined w c) :
    Ends (handleHeaders w) c (fun _ c' => Declining c' ∧ c'.inBuf.length ≤ c.inBuf.length) Undefined := by
  rw [handleHeaders, ends_bind, ends_get]
  cases hfind : find (crlf ++ crlf) c.inBuf with
  | none =>
      dsimp only
      rw [ends_ite, ends_bind]
      refine ⟨fun _ => ?_, fun _ => ⟨hc.declining, Nat.le_refl _⟩⟩
      refine (sendError_declines _ _ hc.declining).mono ?_ fun _ _ => id
      exact fun _ c' hc' => ⟨hc'.1, hc'.2 ▸ Nat.le_refl _⟩
  | some i =>
      have hlength := length_of_find hfind (by simp [crlf])
      rw [show (crlf ++ crlf).length = 4 from rfl] at hlength
      have hshort := hc.short
      dsimp only
      rw [record, ends_bind, ends_modify, ends_bind, processHeaders, ends_bind, ends_get]
      dsimp only
      have hends := RequestParser.block_ends (c.inBuf.take (i + 2))
      have hmemory := RequestParser.block_length (c.inBuf.take (i + 2))
      cases hrun : RequestParser.block.run (c.inBuf.take (i + 2)) with
      | ok parsed memory =>
          rw [ends_of_run_ok hrun, List.length_take] at hends
          omega
      | error stop memory =>
          rw [ends_of_run_error hrun, List.length_take] at hmemory
          cases stop with
          | fault f => exact ends_fault.mpr ⟨f, rfl⟩
          | reject responseCode reason =>
              dsimp only
              rw [ends_bind, ends_set]
              have hsend : ∀ c₁ : Connection, c₁.state = c.state → c₁.request = c.request →
                  Declines (sendError w responseCode reason) c₁ := fun c₁ hsame hrequest =>
                sendError_declines _ _
                  ⟨hsame ▸ hc.declining.notUpgraded, hrequest ▸ hc.declining.hopeless⟩
              refine (hsend _ (by rfl) (by rfl)).mono ?_ fun _ _ => id
              rintro accepted c' ⟨hdeclining, hbuffer⟩
              have hrest : c'.inBuf.length ≤ c.inBuf.length := by
                rw [hbuffer]
                dsimp only
                rw [List.length_append, List.length_drop]
                omega
              rw [ends_ite]
              refine ⟨fun _ => ?_, fun _ => ?_⟩
              · rw [ends_bind, ends_modify, ends_pure]
                refine ⟨⟨hdeclining.notUpgraded, hdeclining.hopeless⟩, ?_⟩
                dsimp only
                rw [List.length_drop]
                omega
              · rw [ends_bind, closeInternal, ends_liftOut]
                exact After.of_forall fun _ _ =>
                  ⟨⟨hdeclining.notUpgraded, hdeclining.hopeless⟩, hrest⟩

/-- The body of the request, if it asks for one, does not change what comes of it. -/
theorem handleBufferingPostData_declined (hstate : c.state = .bufferingPostData) (hc : Declined w c) :
    Ends (handleBufferingPostData w) c
      (fun _ c' => Declining c' ∧ c'.inBuf.length ≤ c.inBuf.length) Undefined := by
  obtain ⟨request, hrequest, hcontent, -⟩ := hc.body hstate
  rw [handleBufferingPostData, ends_bind, ends_get, ends_bind, theRequest, ends_bind, ends_get,
    hrequest, ends_pure]
  by_cases hlength : request.contentLength ≤ c.inBuf.length
  · rw [PageRequest.consumeContent_of_le hcontent hlength]
    dsimp only
    rw [record, ends_bind, ends_modify, ends_bind, ends_modify, ends_bind]
    have hhopeless := hc.declining.hopeless request hrequest
    have hhandle : ∀ c₁ : Connection, c₁.state = .readingHeaders →
        c₁.request = some { request with content := c.inBuf.take request.contentLength } →
        Declines (handlePageRequest w) c₁ := by
      intro c₁ hreading hsome
      refine handlePageRequest_declines ⟨hreading ▸ notUpgraded_readingHeaders, ?_⟩ hsome
      intro request' hrequest'
      rw [hsome] at hrequest'
      injection hrequest' with hrequest'
      exact hrequest' ▸ ⟨hhopeless.verb, hhopeless.version⟩
    refine (hhandle _ rfl rfl).mono ?_ fun _ _ => id
    rintro accepted c' ⟨hdeclining, hbuffer⟩
    have hrest : c'.inBuf.length ≤ c.inBuf.length := by
      rw [hbuffer]
      exact (List.drop_suffix _ _).length_le
    rw [ends_ite]
    refine ⟨fun _ => ?_, fun _ => ⟨hdeclining, hrest⟩⟩
    rw [closeInternal, ends_liftOut]
    exact After.of_forall fun _ _ => ⟨⟨hdeclining.notUpgraded, hdeclining.hopeless⟩, hrest⟩
  · rw [PageRequest.consumeContent, if_pos (by omega)]
    exact ⟨hc.declining, Nat.le_refl _⟩

theorem handleNewDataFrom_declined (fuel : Nat) (hc : Declined w c) :
    Ends (handleNewDataFrom w fuel) c
      (fun _ c' => Declining c' ∧ c'.inBuf.length ≤ c.inBuf.length) Undefined := by
  induction fuel generalizing c with
  | zero => exact ⟨hc.declining, Nat.le_refl _⟩
  | succ fuel ih =>
      rw [handleNewDataFrom, ends_bind, ends_get]
      have hnot := hc.declining.notUpgraded
      cases hstate : c.state with
      | readingHeaders =>
          dsimp only
          rw [ends_bind]
          refine ((handleHeaders_declined hc).and (handleHeaders_takes hstate)).mono ?_
            fun _ _ => And.left
          rintro goOn c' ⟨⟨hdeclining, hrest⟩, htakes⟩
          have hbody := bodyAwaited_of_steps (ReflTransGen.mono (fun _ _ => And.left) _ _ htakes) hc.body
          rw [ends_ite]
          refine ⟨fun _ => ?_, fun _ => ⟨hdeclining, hrest⟩⟩
          refine (ih ⟨hdeclining, hrest.trans hc.short, hbody⟩).mono ?_ fun _ _ => id
          exact fun _ c'' hc'' => ⟨hc''.1, hc''.2.trans hrest⟩
      | readingWebSocketKey3 => exact absurd hstate hnot.key
      | handlingHixieWebSocket => exact absurd hstate hnot.hixie
      | handlingHybiWebSocket => exact absurd hstate hnot.hybi
      | bufferingPostData => exact handleBufferingPostData_declined hstate hc
      | awaitingResponseBegin => exact ⟨hc.declining, Nat.le_refl _⟩
      | sendingResponseHeaders => exact ⟨hc.declining, Nat.le_refl _⟩
      | sendingResponseBody => exact ⟨hc.declining, Nat.le_refl _⟩
      | invalid => exact ends_fault.mpr ⟨_, rfl⟩

/-! ### Reads -/

/-- The block is not complete yet. -/
structure Waiting (part : Bytes) (c : Connection) : Prop where
  state : c.state = .readingHeaders
  request : c.request = none
  inBuf : c.inBuf = part
  short : part.length < h.block.length

/-- What can be said once `part` of the handshake has been read. -/
def Phase (w : World) (part : Bytes) (c : Connection) : Prop :=
  c.closed = true ∧ NotUpgraded c.state ∨ h.Waiting part c ∨
    Declining c ∧ BodyAwaited w c ∧ c.inBuf.length + h.text.length ≤ 8 + part.length

theorem Phase.notUpgraded {part : Bytes} (hc : h.Phase w part c) : NotUpgraded c.state := by
  rcases hc with ⟨-, hnot⟩ | hwaiting | ⟨hdeclining, -⟩
  · exact hnot
  · exact hwaiting.state ▸ notUpgraded_readingHeaders
  · exact hdeclining.notUpgraded

theorem Waiting.declining {part : Bytes} (hc : h.Waiting part c) : Declining c where
  notUpgraded := hc.state ▸ notUpgraded_readingHeaders
  hopeless := by
    intro request hrequest
    rw [hc.request] at hrequest
    cases hrequest

theorem text_length : h.text.length = h.block.length + 8 := by
  rw [text, List.length_append, h.length₃]

/-- The turn of `handleNewData` on what has been read. -/
theorem handleNewDataFrom_phase {part : Bytes} (fuel : Nat) (hpart : part <+: h.text)
    (hstate : c.state = .readingHeaders) (hrequest : c.request = none) (hinBuf : c.inBuf = part) :
    Ends (handleNewDataFrom w (fuel + 1)) c (fun _ c' => h.Phase w part c') Undefined := by
  have hdeclining : Declining c := by
    refine ⟨hstate ▸ notUpgraded_readingHeaders, fun request hsome => ?_⟩
    rw [hrequest] at hsome
    cases hsome
  have hbody : BodyAwaited w c := fun hbuffering => absurd (hstate.symm.trans hbuffering) (by decide)
  rw [handleNewDataFrom, ends_bind, ends_get, hstate]
  dsimp only
  rw [ends_bind]
  by_cases hlength : part.length < h.block.length
  · have hpartial : part <+: h.block :=
      List.prefix_of_prefix_length_le hpart (List.prefix_append _ _) (Nat.le_of_lt hlength)
    rw [handleHeaders, ends_bind, ends_get, hinBuf, h.find_part hpartial hlength]
    dsimp only
    rw [ends_ite]
    refine ⟨fun _ => ?_, fun _ => Or.inr (Or.inl ⟨hstate, hrequest, hinBuf, hlength⟩)⟩
    rw [ends_bind, sendUnsupportedError, sendError, ends_bind, ends_get, hstate, if_neg (by simp),
      ends_liftOut]
    exact After.of_forall fun _ out => Or.inr (Or.inl ⟨hstate, hrequest, hinBuf, hlength⟩)
  · obtain ⟨rest, hrest⟩ : h.block <+: part :=
      List.prefix_of_prefix_length_le (List.prefix_append _ _) hpart (Nat.le_of_not_lt hlength)
    have htext := h.text_length
    have htotal := hpart.length_le
    have hsplit : part.length = h.block.length + rest.length := by
      rw [← hrest, List.length_append]
    refine ((h.handleHeaders_block hstate hdeclining (hinBuf.trans hrest.symm)).and
      (handleHeaders_takes hstate)).mono ?_ fun _ _ => And.left
    rintro goOn c' ⟨⟨hdeclining', hleft⟩, htakes⟩
    have hbody' := bodyAwaited_of_steps (ReflTransGen.mono (fun _ _ => And.left) _ _ htakes) hbody
    rw [ends_ite]
    rcases hleft with hleft | ⟨hclosed, rfl⟩
    · refine ⟨fun _ => ?_, fun _ => Or.inr (Or.inr ⟨hdeclining', hbody', by rw [hleft]; omega⟩)⟩
      have hdeclined : Declined w c' := ⟨hdeclining', by rw [hleft]; omega, hbody'⟩
      refine ((handleNewDataFrom_declined fuel hdeclined).and (handleNewDataFrom_takes fuel c')).mono
        ?_ fun _ _ => And.left
      rintro - c'' ⟨⟨hdeclining'', hshorter⟩, htakes''⟩
      refine Or.inr (Or.inr ⟨hdeclining'', ?_, by rw [hleft] at hshorter; omega⟩)
      exact bodyAwaited_of_steps (ReflTransGen.mono (fun _ _ => And.left) _ _ htakes'') hbody'
    · exact ⟨fun hfalse => absurd hfalse Bool.false_ne_true,
        fun _ => Or.inl ⟨hclosed, hdeclining'.notUpgraded⟩⟩

theorem step_phase {part : Bytes}
    (received : { bytes : Bytes // bytes ≠ [] ∧ bytes.length ≤ readWriteBufferSize })
    (hpart : part ++ received.val <+: h.text) (hc : h.Phase w part c) :
    Ends (step w (.readable (.data received))) c
      (fun _ c' => h.Phase w (part ++ received.val) c') Undefined := by
  rw [step, ends_bind, ends_get]
  dsimp only
  rw [ends_ite]
  refine ⟨fun _ => ?_, fun _ => ends_fault.mpr ⟨_, rfl⟩⟩
  rw [handleDataReadyForRead, ends_bind, ends_get, ends_ite]
  refine ⟨fun hopen => ?_, fun hclosed => ?_⟩
  · rcases hc with ⟨hclosed, -⟩ | hwaiting | ⟨hdeclining, hbody, hleft⟩
    · rw [hclosed] at hopen
      cases hopen
    · dsimp only
      rw [ends_bind, ends_set, handleNewData, ends_bind, ends_get]
      refine h.handleNewDataFrom_phase _ hpart ?_ ?_ ?_
      · exact hwaiting.state
      · exact hwaiting.request
      · dsimp only
        rw [hwaiting.inBuf]
    · dsimp only
      rw [ends_bind, ends_set, handleNewData, ends_bind, ends_get]
      have htotal := hpart.length_le
      rw [List.length_append] at htotal
      have hdeclined : ∀ c₁ : Connection, c₁.state = c.state → c₁.request = c.request →
          c₁.inBuf = c.inBuf ++ received.val → Declined w c₁ := by
        intro c₁ hstate hrequest hinBuf
        refine ⟨⟨hstate ▸ hdeclining.notUpgraded, hrequest ▸ hdeclining.hopeless⟩, ?_, ?_⟩
        · rw [hinBuf, List.length_append]
          omega
        · rw [BodyAwaited, hstate, hrequest]
          exact hbody
      have hc₁ := hdeclined { c with
        bytesReceived := c.bytesReceived + received.val.length
        inBuf := c.inBuf ++ received.val } rfl rfl rfl
      refine ((handleNewDataFrom_declined _ hc₁).and (handleNewDataFrom_takes _ _)).mono ?_
        fun _ _ => And.left
      rintro - c' ⟨⟨hdeclining', hshorter⟩, htakes⟩
      refine Or.inr (Or.inr ⟨hdeclining', ?_, ?_⟩)
      · exact bodyAwaited_of_steps (ReflTransGen.mono (fun _ _ => And.left) _ _ htakes) hc₁.body
      · dsimp only at hshorter
        rw [List.length_append] at hshorter ⊢
        omega
  · refine Or.inl ⟨?_, hc.notUpgraded⟩
    simpa using hclosed

theorem run_phase {part : Bytes} {events : List Event} {c' : Connection}
    (hreads : ∀ event ∈ events, ∃ received, event = .readable (.data received))
    (hpart : part ++ received events <+: h.text) (hc : h.Phase w part c)
    (hrun : run w events c = .ok c') : h.Phase w (part ++ received events) c' := by
  induction events generalizing part c with
  | nil =>
      injection hrun with hrun
      rw [received, List.flatMap_nil, List.append_nil]
      exact hrun ▸ hc
  | cons event events ih =>
      rw [List.forall_mem_cons] at hreads
      obtain ⟨⟨bytes, rfl⟩, hreads⟩ := hreads
      have hsplit : part ++ received (.readable (.data bytes) :: events) =
          part ++ bytes.val ++ received events := by
        rw [received, List.flatMap_cons, List.append_assoc]
        rfl
      rw [hsplit] at hpart ⊢
      have hstep := h.step_phase bytes ((List.prefix_append _ _).trans hpart) hc
      unfold Ends at hstep
      rw [run] at hrun
      cases hstepped : (step w (.readable (.data bytes))).run c with
      | ok result c₁ =>
          rw [hstepped] at hstep hrun
          exact ih hreads hpart hstep hrun
      | error e c₁ =>
          rw [hstepped] at hstep hrun
          obtain ⟨f, rfl⟩ := hstep
          cases hrun

/-- **Hixie handshakes.** A client's handshake names no version, which the server takes for a version it
cannot read: however the handshake is cut into reads, it never succeeds. -/
theorem not_succeeds (w : World) (h : ClientHandshake) {events : List Event}
    (hreads : ∀ event ∈ events, ∃ received, event = .readable (.data received))
    (hreceived : received events = h.text) : ¬ h.Succeeds w events := by
  rintro ⟨c, hrun, hstate, -⟩
  have hwaiting : h.Phase w [] fresh := by
    have hfour := h.four_le_length
    exact Or.inr (Or.inl ⟨rfl, rfl, rfl, by rw [List.length_nil]; omega⟩)
  have hphase := h.run_phase hreads (by rw [List.nil_append, hreceived]) hwaiting hrun
  exact hphase.notUpgraded.hixie hstate

end ClientHandshake

/-! ### A handshake -/

def handshakeFields : List (Bytes × Bytes) :=
  [(ascii "Host", ascii "a.example"), (ascii "Connection", ascii "Upgrade"),
    (ascii "Upgrade", ascii "WebSocket"), (ascii "Sec-WebSocket-Key1", ascii "a1 b2!"),
    (ascii "Sec-WebSocket-Key2", ascii "(7 x ~8")]

/-- The handshake for the numbers 12 and 39, with one and two spaces. -/
def exampleHandshake : ClientHandshake where
  number₁ := 12
  spaces₁ := 1
  key₁ := ascii "a1 b2!"
  number₂ := 39
  spaces₂ := 2
  key₂ := ascii "(7 x ~8"
  requestUri := ascii "/chat"
  fields := handshakeFields
  key₃ := ascii "12345678"
  drawn₁ := by constructor <;> decide +kernel
  drawn₂ := by constructor <;> decide +kernel
  uri := ⟨by decide +kernel, by decide +kernel⟩
  plain := by
    intro field hfield
    simp only [handshakeFields, List.mem_cons, List.not_mem_nil, or_false] at hfield
    rcases hfield with rfl | rfl | rfl | rfl | rfl <;> (constructor <;> decide +kernel)
  distinct := by decide +kernel
  upgrade := by decide +kernel
  connection := by decide +kernel
  secKey₁ := by decide +kernel
  secKey₂ := by decide +kernel
  noVersion := by decide +kernel
  length₃ := by decide +kernel

/-- The handshake in two reads. -/
theorem not_succeeds_reads :
    ¬ exampleHandshake.Succeeds World.chat
      [.readable (.data ⟨exampleHandshake.block, by decide +kernel⟩),
        .readable (.data ⟨exampleHandshake.key₃, by decide +kernel⟩)] := by
  refine ClientHandshake.not_succeeds World.chat exampleHandshake ?_ (by decide +kernel)
  intro event hevent
  simp only [List.mem_cons, List.not_mem_nil, or_false] at hevent
  rcases hevent with rfl | rfl
  · exact ⟨_, rfl⟩
  · exact ⟨_, rfl⟩

/-- What the server answers instead. -/
theorem rejected_of_no_version :
    ∃ c, Connection.run World.chat [.readable (.data ⟨exampleHandshake.text, by decide +kernel⟩)]
        Connection.fresh = .ok c ∧
      (World.chat.getWebSocketHandler exampleHandshake.requestUri).isSome = true ∧
      c.state = .readingHeaders ∧ c.closed = true ∧
      ascii "HTTP/1.1 426 Upgrade Required" <+: Output.emitted c.out := by
  have hrun : (do
      let c ← Connection.run World.chat
        [.readable (.data ⟨exampleHandshake.text, by decide +kernel⟩)] Connection.fresh
      return decide (c.state = .readingHeaders ∧ c.closed = true ∧
        (ascii "HTTP/1.1 426 Upgrade Required").isPrefixOf (Output.emitted c.out) = true))
      = (.ok true : Except Fault Bool) := by
    decide +kernel
  obtain ⟨c, hc, hrun⟩ := ok_of_bind_eq_ok hrun
  injection hrun with hrun
  obtain ⟨hstate, hclosed, hemitted⟩ := of_decide_eq_true hrun
  exact ⟨c, hc, by decide +kernel, hstate, hclosed, List.isPrefixOf_iff_prefix.mp hemitted⟩

end Seasocks
