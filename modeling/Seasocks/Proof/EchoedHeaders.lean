import Seasocks.Proof.Handshakes

/-!
# Echoed header values

Both handshakes echo header values of the request. The parser cuts lines at the two-byte line end only,
so a value may hold a bare carriage return or line feed, but never a line end, and neither does any line
of the response.
-/

namespace Seasocks

open Program RequestParser

variable {w : World}

/-! ### Line ends in parts of a line -/

theorem find_crlf_of_isInfix {s t : Bytes} (h : s <:+: t) (ht : find crlf t = none) :
    find crlf s = none :=
  find_eq_none_iff.mpr fun hsub => find_eq_none_iff.mp ht (hsub.trans h)

theorem find_crlf_append {s t : Bytes} (hs : find crlf s = none) (ht : lf ∉ t) :
    find crlf (s ++ t) = none := by
  induction s with
  | nil =>
      refine find_eq_none_iff.mpr fun hsub => ht ?_
      exact hsub.subset (List.mem_cons_of_mem _ List.mem_cons_self)
  | cons c s ih =>
      rw [find] at hs
      split_ifs at hs with hfirst
      have hfirst' : ¬ crlf.isPrefixOf (c :: (s ++ t)) = true := by
        intro hbegins
        cases s with
        | nil =>
            cases t with
            | nil => exact hfirst hbegins
            | cons d t =>
                simp only [crlf, List.nil_append, List.isPrefixOf, Bool.and_true, Bool.and_eq_true,
                  beq_iff_eq] at hbegins
                exact ht (hbegins.2 ▸ List.mem_cons_self)
        | cons d s => exact hfirst (by simpa [crlf, List.isPrefixOf] using hbegins)
      rw [List.cons_append, find, if_neg hfirst', ih (Option.map_eq_none_iff.mp hs)]
      rfl

/-- The first line end of a line as it is sent is the one behind it. -/
theorem find_crlf_end {line : Bytes} (h : find crlf line = none) :
    find crlf (line ++ crlf) = some line.length := by
  induction line with
  | nil => rfl
  | cons c line ih =>
      rw [find] at h
      split_ifs at h with hfirst
      have hfirst' : ¬ crlf.isPrefixOf (c :: (line ++ crlf)) = true := by
        intro hbegins
        cases line with
        | nil =>
            simp only [crlf, List.nil_append, List.isPrefixOf, Bool.and_true, Bool.and_eq_true,
              beq_iff_eq] at hbegins
            exact absurd hbegins.2 (by decide)
        | cons d line => exact hfirst (by simpa [crlf, List.isPrefixOf] using hbegins)
      rw [List.cons_append, find, if_neg hfirst', ih (Option.map_eq_none_iff.mp h)]
      rfl

theorem isInfix_of_mem_splitFrom {splitChar : UInt8} {fuel : Nat} {rest part : Bytes}
    (h : part ∈ splitFrom splitChar fuel rest) : part <:+: rest := by
  induction fuel generalizing rest with
  | zero =>
      rw [splitFrom, List.mem_singleton] at h
      exact h ▸ List.infix_rfl
  | succ fuel ih =>
      rw [splitFrom] at h
      cases hpos : rest.idxOf? splitChar with
      | none =>
          rw [hpos, List.mem_singleton] at h
          exact h ▸ List.infix_rfl
      | some newPos =>
          rw [hpos, List.mem_cons] at h
          rcases h with rfl | h
          · exact (List.take_prefix _ _).isInfix
          · exact (ih h).trans (List.drop_suffix _ _).isInfix

theorem isInfix_of_mem_split {input part : Bytes} {splitChar : UInt8}
    (h : part ∈ split input splitChar) : part <:+: input := by
  rw [split] at h
  split_ifs at h with hempty
  · cases h
  · exact isInfix_of_mem_splitFrom h

theorem trimWhitespace_isInfix (str : Bytes) : trimWhitespace str <:+: str := by
  rw [trimWhitespace]
  have hend := List.reverse_prefix.mpr (List.dropWhile_suffix isspace (l := (str.dropWhile isspace).reverse))
  rw [List.reverse_reverse] at hend
  exact hend.isInfix.trans (List.dropWhile_suffix isspace).isInfix

/-! ### The parts of a handshake -/

theorem RequestParser.OneLine.get {headers : HeaderMap} (h : OneLine headers) (name : Bytes) :
    find crlf (headers.get name) = none := by
  rw [HeaderMap.get, HeaderMap.find]
  cases hentry : headers.entries.find? fun entry => caseInsensitiveSame entry.1 name with
  | none => rfl
  | some entry => exact h entry (List.mem_of_find?_eq_some hentry)

theorem isInfix_of_getD_protocols (request : PageRequest) (i : Nat) :
    (Output.protocols request).getD i [] <:+: request.getHeader Output.protocolHeader := by
  rw [List.getD_eq_getElem?_getD]
  cases hprotocol : (Output.protocols request)[i]? with
  | none => exact List.nil_infix
  | some protocol =>
      obtain ⟨part, hpart, rfl⟩ := List.mem_map.mp (List.mem_of_getElem? hprotocol)
      exact (trimWhitespace_isInfix part).trans (isInfix_of_mem_split hpart)

theorem base64Char_ne (index : UInt8) : base64Char index ≠ cr ∧ base64Char index ≠ lf := by
  have hchars : ∀ c ∈ cb64, c ≠ cr ∧ c ≠ lf := by decide +kernel
  rw [base64Char, List.getD_eq_getElem?_getD]
  cases hchar : cb64[index.toNat]? with
  | none => exact ⟨by decide, by decide⟩
  | some c => exact hchars c (List.mem_of_getElem? hchar)

theorem base64Encode_ne (s : Bytes) : ∀ c ∈ base64Encode s, c ≠ cr ∧ c ≠ lf := by
  have hpad : (61 : UInt8) ≠ cr ∧ (61 : UInt8) ≠ lf := by decide
  induction s using base64Encode.induct with
  | case1 => exact fun c hc => by cases hc
  | case2 b0 =>
      rw [base64Encode]
      simp only [List.forall_mem_cons]
      exact ⟨base64Char_ne _, base64Char_ne _, hpad, hpad, fun c hc => by cases hc⟩
  | case3 b0 b1 =>
      rw [base64Encode]
      simp only [List.forall_mem_cons]
      exact ⟨base64Char_ne _, base64Char_ne _, base64Char_ne _, hpad, fun c hc => by cases hc⟩
  | case4 b0 b1 b2 rest ih =>
      rw [base64Encode]
      simp only [List.forall_mem_cons]
      exact ⟨base64Char_ne _, base64Char_ne _, base64Char_ne _, base64Char_ne _, ih⟩

/-! ### Lines -/

/-- A line that ends where it is meant to, and whose other control bytes are those of client values. -/
structure Whole (values : List Bytes) (line : Bytes) : Prop where
  ending : find crlf (line ++ crlf) = some line.length
  echoed : ∀ byte ∈ line, byte = cr ∨ byte = lf → ∃ value ∈ values, byte ∈ value

theorem whole_of_not_mem {values : List Bytes} {line : Bytes} (hcr : cr ∉ line) (hlf : lf ∉ line) :
    Whole values line where
  ending := by
    have hfind := find_crlf hcr []
    rwa [show (cr :: lf :: []) = crlf from rfl] at hfind
  echoed := by
    rintro byte hbyte (rfl | rfl)
    · exact absurd hbyte hcr
    · exact absurd hbyte hlf

/-- A line of the server's own that goes on with a text of the client's. -/
theorem whole_append {values : List Bytes} {own value text : Bytes} (hown : cr ∉ own ∧ lf ∉ own)
    (hvalue : value ∈ values) (htext : find crlf text = none)
    (hechoed : ∀ byte ∈ text, byte = cr ∨ byte = lf → byte ∈ value) : Whole values (own ++ text) where
  ending := by
    refine find_crlf_end ?_
    rw [find_skip rfl hown.1, htext]
    rfl
  echoed := by
    intro byte hbyte hcontrol
    rcases List.mem_append.mp hbyte with hbyte | hbyte
    · rcases hcontrol with rfl | rfl
      · exact absurd hbyte hown.1
      · exact absurd hbyte hown.2
    · exact ⟨value, hvalue, hechoed byte hbyte hcontrol⟩

/-- The server's own texts hold neither carriage returns nor line feeds. -/
structure PlainTexts (w : World) : Prop where
  version : cr ∉ w.version ∧ lf ∉ w.version
  date : ∀ log, cr ∉ w.now log ∧ lf ∉ w.now log

theorem PlainTexts.commonLines (hw : PlainTexts w) (values : List Bytes) (log : List OutEvent) :
    ∀ line ∈ Output.commonLines w .webSocketProtocolHandshake (w.now log) ++ Output.upgradeLines,
      Whole values line := by
  have append : ∀ {own rest : Bytes}, cr ∉ own ∧ lf ∉ own → cr ∉ rest ∧ lf ∉ rest →
      Whole values (own ++ rest) := fun hown hrest =>
    whole_of_not_mem (by simp [hown.1, hrest.1]) (by simp [hown.2, hrest.2])
  intro line hline
  simp only [Output.commonLines, Output.upgradeLines, List.cons_append, List.nil_append,
    List.mem_cons, List.not_mem_nil, or_false] at hline
  rcases hline with rfl | rfl | rfl | rfl | rfl | rfl
  · exact whole_of_not_mem (by decide +kernel) (by decide +kernel)
  · exact append (by decide) hw.version
  · exact append (by decide) (hw.date log)
  · exact whole_of_not_mem (by decide) (by decide)
  · exact whole_of_not_mem (by decide) (by decide)
  · exact whole_of_not_mem (by decide) (by decide)

theorem protocolLines_whole {values : List Bytes} {request : PageRequest}
    (hheaders : OneLine request.headers) (hvalues : request.getHeader Output.protocolHeader ∈ values)
    (webSocketHandler : Option HandlerId) :
    ∀ line ∈ Output.protocolLines w request webSocketHandler, Whole values line := by
  intro line hline
  unfold Output.protocolLines at hline
  cases webSocketHandler with
  | none => cases hline
  | some handler =>
      dsimp only at hline
      split_ifs at hline with hheader hchosen
      · rw [List.mem_singleton.mp hline]
        have hsub := isInfix_of_getD_protocols request
          (w.chooseProtocol handler (Output.protocols request)).toNat
        exact whole_append (by decide) hvalues (find_crlf_of_isInfix hsub (hheaders.get _))
          fun byte hbyte _ => hsub.subset hbyte
      · cases hline
      · cases hline

theorem originLines_whole {values : List Bytes} {request : PageRequest}
    (hheaders : OneLine request.headers) (huri : ∀ c ∈ request.requestUri, isspace c = false)
    (horigin : request.getHeader (ascii "Origin") ∈ values)
    (hhost : request.getHeader (ascii "Host") ∈ values) :
    ∀ line ∈ Output.originLines w request, Whole values line := by
  have hcr : cr ∉ request.requestUri := fun h => absurd (huri cr h) (by decide)
  have hlf : lf ∉ request.requestUri := fun h => absurd (huri lf h) (by decide)
  have echo : ∀ {own name : Bytes}, cr ∉ own ∧ lf ∉ own → request.getHeader name ∈ values →
      Whole values (own ++ request.getHeader name) := fun hown hvalue =>
    whole_append hown hvalue (hheaders.get _) fun _ hbyte _ => hbyte
  have location : Whole values (ascii "Sec-WebSocket-Location: ws://"
      ++ request.getHeader (ascii "Host") ++ request.requestUri) := by
    rw [List.append_assoc]
    refine whole_append (by decide) hhost (find_crlf_append (hheaders.get _) hlf) ?_
    intro byte hbyte hcontrol
    rcases List.mem_append.mp hbyte with hbyte | hbyte
    · exact hbyte
    · rcases hcontrol with rfl | rfl
      · exact absurd hbyte hcr
      · exact absurd hbyte hlf
  intro line hline
  unfold Output.originLines at hline
  dsimp only at hline
  rcases List.mem_append.mp hline with hline | hline
  · split_ifs at hline with hallowed
    · rw [List.mem_singleton.mp hline]
      exact echo (by decide) horigin
    · cases hline
  · split_ifs at hline with hhas hforeign
    · rcases List.mem_append.mp hline with hline | hline
      · rw [List.mem_singleton.mp hline]
        exact echo (by decide) hhost
      · rw [List.mem_singleton.mp hline]
        exact location
    · rw [List.nil_append, List.mem_singleton] at hline
      rw [hline]
      exact location
    · cases hline

theorem hybiLines_whole (hw : PlainTexts w) {request : PageRequest} (hheaders : OneLine request.headers)
    (webSocketHandler : Option HandlerId) (webSocketKey : Bytes) (perMessageDeflate : Bool)
    (log : List OutEvent) :
    ∀ line ∈ Output.hybiLines w request webSocketHandler webSocketKey perMessageDeflate (w.now log),
      Whole [request.getHeader (ascii "Sec-WebSocket-Protocol")] line := by
  intro line hline
  rw [Output.hybiLines, List.mem_append, List.mem_append, List.mem_append] at hline
  rcases hline with ((hline | hline) | hline) | hline
  · exact hw.commonLines _ log line hline
  · rw [List.mem_singleton.mp hline]
    have hkey := base64Encode_ne (w.sha1 (webSocketKey ++ magicString))
    refine whole_of_not_mem ?_ ?_
    · rw [List.mem_append, not_or]
      exact ⟨by decide, fun h => (hkey cr h).1 rfl⟩
    · rw [List.mem_append, not_or]
      exact ⟨by decide, fun h => (hkey lf h).2 rfl⟩
  · rw [Output.extensionLines] at hline
    split_ifs at hline with hdeflate
    · rw [List.mem_singleton.mp hline]
      exact whole_of_not_mem (by decide) (by decide)
    · cases hline
  · exact protocolLines_whole hheaders (by simp [Output.protocolHeader]) _ line hline

theorem hixieLines_whole (hw : PlainTexts w) {request : PageRequest} (hheaders : OneLine request.headers)
    (huri : ∀ c ∈ request.requestUri, isspace c = false) (webSocketHandler : Option HandlerId)
    (log : List OutEvent) :
    ∀ line ∈ Output.hixieLines w request webSocketHandler (w.now log),
      Whole [request.getHeader (ascii "Sec-WebSocket-Protocol"), request.getHeader (ascii "Origin"),
        request.getHeader (ascii "Host")] line := by
  intro line hline
  rw [Output.hixieLines, List.mem_append, List.mem_append] at hline
  rcases hline with (hline | hline) | hline
  · exact hw.commonLines _ log line hline
  · exact originLines_whole hheaders huri (by simp) (by simp) line hline
  · exact protocolLines_whole hheaders (by simp [Output.protocolHeader]) _ line hline

/-- **Echoed header values.** Whatever header block a request has been read from, either handshake sends
its lines, and the line end behind each of them is the only one in it. A bare carriage return or line feed
in a line is one of the header values the handshake echoes. -/
theorem handshake_whole {memory memory' requestUri : Bytes} {verb : Verb} {headers : HeaderMap}
    (hparse : block.run memory = .ok (verb, requestUri, headers) memory') {w : World}
    (hw : PlainTexts w) {request : PageRequest} (hrequestUri : request.requestUri = requestUri)
    (hheaders : request.headers = headers) (webSocketHandler : Option HandlerId) :
    (∀ webSocketKey perMessageDeflate o,
      After (Output.hybiHandshake w request webSocketHandler webSocketKey perMessageDeflate) o
        fun _ o' => ∃ log,
          let lines :=
            Output.hybiLines w request webSocketHandler webSocketKey perMessageDeflate (w.now log)
          Output.Emits (renderLines lines ++ crlf) o o' ∧
            ∀ line ∈ lines, Whole [request.getHeader (ascii "Sec-WebSocket-Protocol")] line) ∧
    ∀ digest o, After (Output.hixieHandshake w request webSocketHandler digest) o
      fun _ o' => ∃ log,
        let lines := Output.hixieLines w request webSocketHandler (w.now log)
        Output.Emits (renderLines lines ++ crlf ++ digest) o o' ∧
          ∀ line ∈ lines, Whole [request.getHeader (ascii "Sec-WebSocket-Protocol"),
            request.getHeader (ascii "Origin"), request.getHeader (ascii "Host")] line := by
  have hblock := block_ends memory
  rw [ends_of_run_ok hparse] at hblock
  obtain ⟨huri, hone, -⟩ := hblock
  dsimp only at huri hone
  rw [← hrequestUri] at huri
  rw [← hheaders] at hone
  constructor
  · intro webSocketKey perMessageDeflate o
    apply (Output.hybiHandshake_emits _ _ _ _).mono
    rintro - o' ⟨log, hemits⟩
    exact ⟨log, hemits, hybiLines_whole hw hone _ _ _ log⟩
  · intro digest o
    apply (Output.hixieHandshake_emits _ _ _).mono
    rintro - o' ⟨log, hemits⟩
    exact ⟨log, hemits, hixieLines_whole hw hone huri _ log⟩

/-- The Hybi handshake for a request that offers two protocols. -/
theorem handshake_whole_protocols :
    let request := PageRequest.create (ascii "/chat") .webSocket
      (headersOf HeaderMap.empty [(ascii "Sec-WebSocket-Protocol", ascii "a, b")])
    After (Output.hybiHandshake World.chat request (some 1) (ascii "key") false) Output.fresh
      fun _ o' => ∃ log,
        let lines := Output.hybiLines World.chat request (some 1) (ascii "key") false (World.chat.now log)
        Output.Emits (renderLines lines ++ crlf) Output.fresh o' ∧
          ∀ line ∈ lines, Whole [request.getHeader (ascii "Sec-WebSocket-Protocol")] line := by
  intro request
  have hfields : ∀ field ∈ [(ascii "Sec-WebSocket-Protocol", ascii "a, b")], PlainField field := by
    intro field hfield
    rw [List.mem_singleton.mp hfield]
    exact ⟨by decide +kernel, by decide +kernel, by decide +kernel⟩
  have huri : Word (ascii "/chat") := ⟨by decide +kernel, by decide +kernel⟩
  obtain ⟨memory', hparse⟩ := block_run huri hfields
  have hw : PlainTexts World.chat := ⟨by decide, fun log => ⟨List.not_mem_nil, List.not_mem_nil⟩⟩
  exact (handshake_whole hparse hw rfl rfl (some 1)).1 (ascii "key") false Output.fresh

/-- A line feed in the protocol that was chosen, with another header line behind it. -/
theorem written_of_bare_line_feed :
    ∃ c, Connection.run { World.chat with chooseProtocol := fun _ _ => 0 }
        [.readable (.data ⟨ascii "GET /chat HTTP/1.1\r\nConnection: Upgrade\r\nUpgrade: websocket\r\n"
          ++ ascii "Sec-WebSocket-Version: 13\r\nSec-WebSocket-Protocol: a\nSet-Cookie: b\r\n\r\n",
          by decide +kernel⟩)] Connection.fresh = .ok c ∧
      .write (ascii "Sec-WebSocket-Protocol: a\nSet-Cookie: b" ++ crlf) ∈ c.out.log ∧
      lf ∈ ascii "Sec-WebSocket-Protocol: a\nSet-Cookie: b" := by
  have hrun : (do
      let c ← Connection.run { World.chat with chooseProtocol := fun _ _ => 0 }
        [.readable (.data ⟨ascii "GET /chat HTTP/1.1\r\nConnection: Upgrade\r\nUpgrade: websocket\r\n"
          ++ ascii "Sec-WebSocket-Version: 13\r\nSec-WebSocket-Protocol: a\nSet-Cookie: b\r\n\r\n",
          by decide +kernel⟩)] Connection.fresh
      return decide (.write (ascii "Sec-WebSocket-Protocol: a\nSet-Cookie: b" ++ crlf) ∈ c.out.log))
      = (.ok true : Except Fault Bool) := by
    decide +kernel
  obtain ⟨c, hc, hrun⟩ := ok_of_bind_eq_ok hrun
  injection hrun with hrun
  exact ⟨c, hc, of_decide_eq_true hrun, by decide⟩

end Seasocks
