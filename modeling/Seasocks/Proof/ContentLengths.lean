import Seasocks.Proof.Answers

/-!
# Content lengths

Whether the `Content-Length` of an answer is the number of bytes behind its blank line. Documents and
whole files are written as they are; the document of an error page is written as a line, whose end the
length does not count.
-/

namespace Seasocks

open Program Relation

variable {w : World} {c : Connection} {o : Output}

/-! ### Header lines and a body -/

/-- Lines that are neither blank nor hold a carriage return. -/
def HeaderLines (lines : List Bytes) : Prop := ∀ line ∈ lines, line ≠ [] ∧ cr ∉ line

theorem headerLines_append {lines lines' : List Bytes} :
    HeaderLines (lines ++ lines') ↔ HeaderLines lines ∧ HeaderLines lines' := List.forall_mem_append

theorem headerLines_cons {line : Bytes} {lines : List Bytes} :
    HeaderLines (line :: lines) ↔ (line ≠ [] ∧ cr ∉ line) ∧ HeaderLines lines := List.forall_mem_cons

theorem renderLines_cons_append (line : Bytes) (lines : List Bytes) (body : Bytes) :
    renderLines (line :: lines) ++ crlf ++ body =
      line ++ (cr :: lf :: (renderLines lines ++ crlf ++ body)) := by
  rw [renderLines_cons, List.append_assoc, List.append_assoc, List.append_assoc]
  rfl

/-- What begins with a line end does not begin with a line. -/
theorem crlf_append_ne {line : Bytes} (hline : line ≠ [] ∧ cr ∉ line) (rest body : Bytes) :
    crlf ++ body ≠ line ++ (cr :: lf :: rest) := by
  obtain ⟨b, line, rfl⟩ := List.exists_cons_of_ne_nil hline.1
  intro hsame
  injection hsame with hfirst
  exact hline.2 (hfirst ▸ List.mem_cons_self)

/-- The blank line that ends the header lines can be told. -/
theorem renderLines_inj {lines lines' : List Bytes} {body body' : Bytes} (h : HeaderLines lines)
    (h' : HeaderLines lines')
    (heq : renderLines lines ++ crlf ++ body = renderLines lines' ++ crlf ++ body') :
    lines = lines' ∧ body = body' := by
  induction lines generalizing lines' with
  | nil =>
      cases lines' with
      | nil => exact ⟨rfl, List.append_cancel_left heq⟩
      | cons line' lines' =>
          rw [headerLines_cons] at h'
          rw [renderLines_cons_append] at heq
          exact absurd heq (crlf_append_ne h'.1 _ _)
  | cons line lines ih =>
      rw [headerLines_cons] at h
      rw [renderLines_cons_append] at heq
      cases lines' with
      | nil => exact absurd heq.symm (crlf_append_ne h.1 _ _)
      | cons line' lines' =>
          rw [headerLines_cons] at h'
          rw [renderLines_cons_append] at heq
          have hlength : line.length = line'.length := by
            have hfind := find_crlf h.1.2 (renderLines lines ++ crlf ++ body)
            rw [heq, find_crlf h'.1.2] at hfind
            injection hfind with hfind
            exact hfind.symm
          obtain ⟨rfl, hrest⟩ := List.append_inj heq hlength
          injection hrest with _ hrest
          injection hrest with _ hrest
          obtain ⟨rfl, rfl⟩ := ih h.2 h'.2 hrest
          exact ⟨rfl, rfl⟩

/-- The values of a header field. -/
def fieldValues (name : Bytes) (lines : List Bytes) : List Bytes :=
  (lines.filter name.isPrefixOf).map (List.drop name.length)

theorem fieldValues_append (name : Bytes) (lines lines' : List Bytes) :
    fieldValues name (lines ++ lines') = fieldValues name lines ++ fieldValues name lines' := by
  rw [fieldValues, List.filter_append, List.map_append]
  rfl

theorem fieldValues_self (name value : Bytes) (lines : List Bytes) :
    fieldValues name ((name ++ value) :: lines) = value :: fieldValues name lines := by
  rw [fieldValues, List.filter_cons_of_pos (by simp), List.map_cons, List.drop_left]
  rfl

theorem fieldValues_skip {name own : Bytes} (hother : ¬ name <+: own ∧ ¬ own <+: name)
    (rest : Bytes) (lines : List Bytes) :
    fieldValues name ((own ++ rest) :: lines) = fieldValues name lines := by
  rw [fieldValues, List.filter_cons_of_neg]
  · rfl
  · intro hbegins
    have hname : name <+: own ++ rest := List.isPrefixOf_iff_prefix.mp hbegins
    have hown : own <+: own ++ rest := List.prefix_append own rest
    exact (List.prefix_or_prefix_of_prefix hname hown).elim hother.1 hother.2

theorem fieldValues_skip_text {name text : Bytes} (hother : ¬ name <+: text) (lines : List Bytes) :
    fieldValues name (text :: lines) = fieldValues name lines := by
  rw [fieldValues, List.filter_cons_of_neg]
  · rfl
  · exact fun hbegins => hother (List.isPrefixOf_iff_prefix.mp hbegins)

def contentLengthField : Bytes := ascii "Content-Length: "

/-- Header lines, a blank line, and as many bytes as the one `Content-Length` says. -/
def Delimits (bytes : Bytes) : Prop :=
  ∃ lines body, HeaderLines lines ∧ bytes = renderLines lines ++ crlf ++ body ∧
    fieldValues contentLengthField lines = [decimal body.length]

theorem delimits_iff {lines : List Bytes} {body : Bytes} {size : Nat} (hlines : HeaderLines lines)
    (hsize : fieldValues contentLengthField lines = [decimal size]) :
    Delimits (renderLines lines ++ crlf ++ body) ↔ body.length = size := by
  constructor
  · rintro ⟨lines', body', hlines', heq, hlength⟩
    obtain ⟨rfl, rfl⟩ := renderLines_inj hlines hlines' heq
    rw [hsize] at hlength
    injection hlength with hlength
    exact (decimal_injective hlength).symm
  · intro hlength
    exact ⟨lines, body, hlines, rfl, by rw [hsize, hlength]⟩

/-! ### The header lines of an answer -/

theorem headerLine_append {own rest : Bytes} (hown : own ≠ [] ∧ cr ∉ own) (hrest : cr ∉ rest) :
    own ++ rest ≠ [] ∧ cr ∉ own ++ rest := by
  refine ⟨List.append_ne_nil_of_left_ne_nil hown.1 rest, ?_⟩
  rw [List.mem_append, not_or]
  exact ⟨hown.2, hrest⟩

theorem cr_not_mem_decimal (n : Nat) : cr ∉ decimal n := fun h =>
  absurd (isdigit_of_mem_decimal h) (by decide)

theorem cr_not_mem_signedDecimal (i : Int) : cr ∉ signedDecimal i := by
  rw [signedDecimal]
  split_ifs with hneg
  · exact (headerLine_append ⟨by decide, by decide⟩ (cr_not_mem_decimal _)).2
  · exact cr_not_mem_decimal _

theorem cr_not_mem_getContentType (path : Bytes) : cr ∉ getContentType path := by
  have htypes : ∀ entry ∈ contentTypes, cr ∉ entry.2 := by decide +kernel
  rw [getContentType]
  cases htype : contentTypes.lookup (getExt path) with
  | none => exact (by decide : cr ∉ ascii "text/html")
  | some type =>
      obtain ⟨before, after, heq, -⟩ := List.lookup_eq_some_iff.mp htype
      exact htypes (getExt path, type) (heq ▸ List.mem_append_right _ List.mem_cons_self)

theorem cr_not_mem_rangeLine (ranges : List Range) (fileSize : Int) :
    cr ∉ rangeLine ranges fileSize := by
  rw [rangeLine, List.mem_append, List.mem_append, List.mem_append, List.mem_flatMap]
  rintro (((h | ⟨range, -, h⟩) | h) | h)
  · exact absurd h (by decide)
  · rw [List.mem_append, List.mem_append] at h
    rcases h with (h | h) | h
    · exact cr_not_mem_signedDecimal _ h
    · exact absurd h (by decide)
    · exact cr_not_mem_signedDecimal _ h
  · exact absurd h (by decide)
  · exact cr_not_mem_signedDecimal _ h

theorem commonLines_headerLines (hw : PlainTexts w) (code : ResponseCode) (log : List OutEvent) :
    HeaderLines (Output.commonLines w code (w.now log)) := by
  have hname : cr ∉ code.name := by cases code <;> decide
  simp only [Output.commonLines, headerLines_cons]
  refine ⟨?_, headerLine_append ⟨by decide, by decide⟩ hw.version.1,
    headerLine_append ⟨by decide, by decide⟩ (hw.date log).1, ⟨by decide, by decide⟩, ?_⟩
  · rw [List.append_assoc, List.append_assoc]
    refine headerLine_append ⟨by decide, by decide⟩ ?_
    rw [List.mem_append, List.mem_append, not_or, not_or]
    exact ⟨cr_not_mem_decimal _, by decide, hname⟩
  · exact fun line hline => absurd hline List.not_mem_nil

namespace Answer

/-- The values that the lines of an answer hold are texts within a line. -/
def Plain : Answer → Prop
  | .document type _ | .header type _ => cr ∉ type
  | .staticFile _ file _ => cr ∉ file.lastModified
  | .page _ _ => True

theorem lines_headerLines (hw : PlainTexts w) {a : Answer} (ha : a.Plain) (log log' : List OutEvent) :
    HeaderLines (a.lines w (w.now log) (w.now log')) := by
  have hnil : HeaderLines [] := fun line hline => absurd hline List.not_mem_nil
  have length : ∀ size : Nat, ascii "Content-Length: " ++ decimal size ≠ [] ∧
      cr ∉ ascii "Content-Length: " ++ decimal size := fun size =>
    headerLine_append ⟨by decide, by decide⟩ (cr_not_mem_decimal size)
  have type : ∀ {type : Bytes}, cr ∉ type → ascii "Content-Type: " ++ type ≠ [] ∧
      cr ∉ ascii "Content-Type: " ++ type := fun htype =>
    headerLine_append ⟨by decide, by decide⟩ htype
  have content : ∀ {type : Bytes} (size : Nat), cr ∉ type →
      HeaderLines (Output.contentLines type size) := by
    intro _ size htype
    simp only [Output.contentLines, headerLines_cons]
    exact ⟨type htype, length size, ⟨by decide, by decide⟩, hnil⟩
  cases a with
  | document contentType document =>
      exact headerLines_append.mpr ⟨commonLines_headerLines hw _ log, content _ ha⟩
  | header contentType size =>
      exact headerLines_append.mpr ⟨commonLines_headerLines hw _ log, content _ ha⟩
  | staticFile path file ranges =>
      simp only [lines, Output.fileLines, headerLines_append]
      refine ⟨⟨?_, ?_⟩, ?_⟩
      · rw [Output.rangeLines]
        split_ifs with hwhole
        · refine headerLines_append.mpr ⟨commonLines_headerLines hw _ log, ?_⟩
          exact headerLines_cons.mpr ⟨length _, hnil⟩
        · refine headerLines_append.mpr ⟨commonLines_headerLines hw _ log, ?_⟩
          simp only [headerLines_cons]
          refine ⟨⟨?_, cr_not_mem_rangeLine _ _⟩, length _, hnil⟩
          rw [rangeLine, List.append_assoc, List.append_assoc]
          exact List.append_ne_nil_of_left_ne_nil (by decide) _
      · simp only [headerLines_cons]
        exact ⟨type (cr_not_mem_getContentType path), ⟨by decide, by decide⟩, ⟨by decide, by decide⟩,
          headerLine_append ⟨by decide, by decide⟩ ha, hnil⟩
      · rw [Output.cacheLines]
        split_ifs with hcache
        · simp only [headerLines_cons]
          exact ⟨⟨by decide, by decide⟩, ⟨by decide, by decide⟩,
            headerLine_append ⟨by decide, by decide⟩ (hw.date log').1, hnil⟩
        · exact hnil
  | page code body =>
      simp only [lines, Output.pageLines, headerLines_append, headerLines_cons]
      exact ⟨commonLines_headerLines hw _ log, length _, ⟨by decide, by decide⟩, hnil⟩

def Unranged : Answer → Prop
  | .staticFile _ _ ranges => ranges = []
  | .document _ _ | .header _ _ | .page _ _ => True

/-- The `Content-Length` that is sent, if a file is asked for as a whole. -/
def size (w : World) : Answer → Nat
  | .document _ content => content.length
  | .header _ size => size
  | .staticFile _ file _ => file.size
  | .page code body => (Output.errorDocument w code body).length

theorem fieldValues_commonLines (code : ResponseCode) (date : Bytes) (lines : List Bytes) :
    fieldValues contentLengthField (Output.commonLines w code date ++ lines) =
      fieldValues contentLengthField lines := by
  have status := fieldValues_skip (by decide +kernel :
    ¬ contentLengthField <+: ascii "HTTP/1.1 " ∧ ¬ ascii "HTTP/1.1 " <+: contentLengthField)
  have server := fieldValues_skip (by decide +kernel :
    ¬ contentLengthField <+: ascii "Server: " ∧ ¬ ascii "Server: " <+: contentLengthField)
  have date := fieldValues_skip (by decide +kernel :
    ¬ contentLengthField <+: ascii "Date: " ∧ ¬ ascii "Date: " <+: contentLengthField)
  have origin := fieldValues_skip_text (by decide +kernel :
    ¬ contentLengthField <+: ascii "Access-Control-Allow-Origin: *")
  rw [Output.commonLines, List.append_assoc, List.append_assoc, List.cons_append, List.cons_append,
    List.cons_append, List.cons_append, List.nil_append, status, server, date, origin]

theorem fieldValues_contentLines (type : Bytes) (size : Nat) :
    fieldValues contentLengthField (Output.contentLines type size) = [decimal size] := by
  have type := fieldValues_skip (by decide +kernel :
    ¬ contentLengthField <+: ascii "Content-Type: " ∧ ¬ ascii "Content-Type: " <+: contentLengthField)
  have alive := fieldValues_skip_text (by decide +kernel :
    ¬ contentLengthField <+: ascii "Connection: keep-alive") []
  have length := fieldValues_self contentLengthField (decimal size) [ascii "Connection: keep-alive"]
  rw [alive] at length
  rw [Output.contentLines, type]
  exact length

/-- The one `Content-Length` among the lines of an answer. -/
theorem fieldValues_lines {a : Answer} (hunranged : a.Unranged) (date expires : Bytes) :
    fieldValues contentLengthField (a.lines w date expires) = [decimal (a.size w)] := by
  cases a with
  | document type content => exact (fieldValues_commonLines _ _ _).trans (fieldValues_contentLines _ _)
  | header type size => exact (fieldValues_commonLines _ _ _).trans (fieldValues_contentLines _ _)
  | staticFile path file ranges =>
      obtain rfl : ranges = [] := hunranged
      have type := fieldValues_skip (by decide +kernel :
        ¬ contentLengthField <+: ascii "Content-Type: " ∧
          ¬ ascii "Content-Type: " <+: contentLengthField)
      have alive := fieldValues_skip_text (by decide +kernel :
        ¬ contentLengthField <+: ascii "Connection: keep-alive")
      have accept := fieldValues_skip_text (by decide +kernel :
        ¬ contentLengthField <+: ascii "Accept-Ranges: bytes")
      have modified := fieldValues_skip (by decide +kernel :
        ¬ contentLengthField <+: ascii "Last-Modified: " ∧
          ¬ ascii "Last-Modified: " <+: contentLengthField)
      have hcache : fieldValues contentLengthField (Output.cacheLines path expires) = [] := by
        have store := fieldValues_skip_text (by decide +kernel :
          ¬ contentLengthField <+: ascii "Cache-Control: no-store")
        have pragma := fieldValues_skip_text (by decide +kernel :
          ¬ contentLengthField <+: ascii "Pragma: no-cache")
        have expiry := fieldValues_skip (by decide +kernel :
          ¬ contentLengthField <+: ascii "Expires: " ∧ ¬ ascii "Expires: " <+: contentLengthField)
        rw [Output.cacheLines]
        split_ifs with hcache
        · rw [store, pragma, expiry]
          rfl
        · rfl
      have length := fieldValues_self contentLengthField (decimal file.size) []
      rw [lines, Output.fileLines, Output.rangeLines, if_pos rfl, List.append_assoc, List.append_assoc,
        fieldValues_commonLines, fieldValues_append, fieldValues_append, type, alive, accept, modified,
        hcache]
      exact length
  | page code body =>
      have close := fieldValues_skip_text (by decide +kernel :
        ¬ contentLengthField <+: ascii "Connection: close") []
      have length := fieldValues_self contentLengthField
        (decimal (Output.errorDocument w code body).length) [ascii "Connection: close"]
      rw [close] at length
      exact (fieldValues_commonLines _ _ _).trans length

/-- Neither an error page, nor a file that cannot be read up to the size it had when it was opened. -/
def Exact (w : World) (o : Output) : Answer → Prop
  | .document _ _ => True
  | .header _ size => size = 0
  | .staticFile path file ranges =>
      Output.ReadsWhole w path file (Output.copyStart w path file ranges o)
  | .page _ _ => False

theorem length_body_iff {a : Answer} {body : Bytes} (hbody : a.body w = some body) :
    body.length = a.size w ↔ a.Exact w o := by
  cases a with
  | document type content =>
      injection hbody with hbody
      rw [← hbody]
      exact iff_of_true rfl trivial
  | header type size =>
      injection hbody with hbody
      rw [← hbody]
      exact eq_comm
  | staticFile path file ranges => cases hbody
  | page code text =>
      injection hbody with hbody
      refine iff_of_false (fun hlength => ?_) id
      rw [← hbody, size, List.length_append] at hlength
      exact absurd hlength (by simp [crlf])

/-- An answer has its header lines, and a body of the size they give if it is exact. -/
theorem send_exact (hepoll : Output.EpollSucceeds w) {a : Answer} (hunranged : a.Unranged) :
    After (a.send w) o fun result o' => (∃ done, result = .ok done) ∧ ∃ log log' body, Connection.Adds
      (renderLines (a.lines w (w.now log) (w.now log')) ++ crlf ++ body) o o' ∧
        (body.length = a.size w ↔ a.Exact w o) := by
  cases hbody : a.body w with
  | some body =>
      refine (send_adds hbody).mono fun result o' h => ?_
      obtain ⟨hreturns, log, log', hadds⟩ := h
      exact ⟨hreturns, log, log', body, hadds, length_body_iff hbody⟩
  | none =>
      cases a with
      | staticFile path file ranges =>
          obtain rfl : ranges = [] := hunranged
          refine Output.sendFile_rule hepoll path file [] (fun o' hfails => ?_) fun log log' h₁ => ?_
          · obtain ⟨body, hlength⟩ := Output.exists_bytes_iff file.size
              (Exact w o (.staticFile path file [])) Or.inl
            exact ⟨⟨false, rfl⟩, [], [], body,
              Connection.adds_of_emits (hfails.emits _) List.prefix_rfl rfl, hlength⟩
          · refine (Output.copyRanges_whole hepoll path file _).mono fun result o' h => ?_
            obtain ⟨hreturns, body, hemits, hlength⟩ := h
            exact ⟨hreturns, log, log', body,
              Connection.adds_of_emits (h₁.trans hemits) List.prefix_rfl rfl, hlength⟩
      | document | header | page => cases hbody

end Answer

/-! ### Files that can be read -/

namespace Output

/-- Neither `lseek` nor `read` fails, and a `read` that asks for bytes yields some as long as there are
any. -/
structure ReadsFiles (w : World) : Prop where
  seek : ∀ log path, w.seek log path = true
  read : ∀ log path offset count, 0 < count →
    ∃ bytesRead, w.readFile log path offset count = some bytesRead ∧ 0 < bytesRead

theorem readsOn_iff (hfiles : ReadsFiles w) (path content : Bytes) {fuel offset : Nat}
    {bytesLeft : Int} (hleft : 0 ≤ bytesLeft) (hfuel : content.length < offset + fuel) (o : Output) :
    ReadsOn w path content fuel offset bytesLeft o ↔ bytesLeft ≤ (content.drop offset).length := by
  induction fuel generalizing offset bytesLeft o with
  | zero =>
      rw [ReadsOn, List.length_drop]
      omega
  | succ fuel ih =>
      rw [ReadsOn]
      by_cases hmore : bytesLeft = 0
      · exact iff_of_true (Or.inl hmore) (by omega)
      have hamount := readAmount_pos hleft hmore
      obtain ⟨bytesRead, hread, hpositive⟩ := hfiles.read o.log path offset _ hamount
      have hlength : (block content offset bytesLeft bytesRead).length =
          min (min bytesRead (readAmount bytesLeft)) (content.drop offset).length := List.length_take
      have hnil : block content offset bytesLeft bytesRead = [] ↔ (content.drop offset).length = 0 := by
        rw [← List.length_eq_zero_iff, hlength]
        omega
      have hbound := readAmount_of_nonneg hleft
      rw [or_iff_right hmore, hread]
      simp only [Option.some.injEq, exists_eq_left', ne_eq, hnil]
      by_cases hend : (content.drop offset).length = 0
      · exact iff_of_false (fun h => h.1 hend) (by omega)
      rw [and_iff_right hend, ih (by omega) (by rw [List.length_drop] at hend hlength; omega),
        List.length_drop, List.length_drop]
      rw [List.length_drop] at hend hlength
      omega

end Output

namespace Answer

/-- A file that can be read need only not have become shorter since it was opened. -/
theorem exact_staticFile_iff (hfiles : Output.ReadsFiles w) (path : Bytes) (file : File)
    (ranges : List Range) :
    Exact w o (.staticFile path file ranges) ↔ file.size ≤ file.content.length := by
  rw [Exact, Output.ReadsWhole, and_iff_right (hfiles.seek _ _),
    Output.readsOn_iff hfiles _ _ (Int.natCast_nonneg _) (by omega), List.drop_zero]
  omega

/-! ### GET requests -/

/-- The routines that answer a GET request without the application's help, and what they answer. -/
inductive AnswersGet (w : World) (c : Connection) : ConnM Bool → Answer → Prop where
  /-- A request whose header block has been read. -/
  | request {requestUri : Bytes} {headers : HeaderMap} {a : Answer}
      (h : request w c .get requestUri headers = some a) :
      AnswersGet w c (Connection.processRequest w .get requestUri headers) a
  /-- A request whose body has been read. -/
  | pageRequest {request : PageRequest} {a : Answer} (hrequest : c.request = some request)
      (hget : request.verb = .get) (h : pageRequest w c request = some a) :
      AnswersGet w c (Connection.handlePageRequest w) a
  | missing : AnswersGet w c (Connection.send404 w) (missing w c)
  | page (code : ResponseCode) (body : Bytes) :
      AnswersGet w c (Connection.sendError w code body) (.page code body)

theorem AnswersGet.gives {m : ConnM Bool} {a : Answer} (h : AnswersGet w c m a)
    (hstate : c.state ≠ .handlingHixieWebSocket) : Gives w m c a := by
  cases h with
  | request h => exact gives_processRequest hstate (by decide) h
  | pageRequest hrequest hget h =>
      exact gives_handlePageRequest hstate hrequest (by rw [hget]; decide) h
  | missing => exact gives_send404 hstate
  | page code body => exact gives_sendError code body hstate

/-- The `Last-Modified` of a file is a text within a line. -/
def PlainFiles (w : World) : Prop :=
  ∀ calls path file, w.openFile calls path = some file → cr ∉ file.lastModified

theorem missing_plain (w : World) (c : Connection) : (missing w c).Plain := by
  rw [missing]
  cases w.embeddedContent c.getRequestUri with
  | some embedded => exact cr_not_mem_getContentType _
  | none =>
      dsimp only
      split_ifs
      · exact (by decide : cr ∉ ascii "text/javascript")
      · trivial

theorem staticData_plain (hfiles : PlainFiles w) {a : Answer} (h : staticData w c = some a) :
    a.Plain := by
  unfold staticData at h
  dsimp only at h
  split at h
  · cases h
  · split at h
    · injection h with h
      exact h ▸ missing_plain w c
    · next file hfile =>
        split at h
        · cases h
        · injection h with h
          exact h ▸ trivial
        · injection h with h
          rw [← h]
          exact hfiles _ _ _ hfile

theorem pageRequest_plain (hfiles : PlainFiles w) {a : Answer} {request : PageRequest}
    (h : pageRequest w c request = some a) : a.Plain := by
  unfold pageRequest at h
  cases houtcome : w.handle c.calls request with
  | unhandled =>
      rw [houtcome] at h
      exact staticData_plain hfiles h
  | response response =>
      rw [houtcome] at h
      cases h
  | throws what =>
      rw [houtcome] at h
      injection h with h
      exact h ▸ trivial
  | throwsUnknown =>
      rw [houtcome] at h
      injection h with h
      exact h ▸ trivial

theorem request_plain (hfiles : PlainFiles w) {a : Answer} {verb : Verb} {requestUri : Bytes}
    {headers : HeaderMap} (h : request w c verb requestUri headers = some a) : a.Plain := by
  unfold request at h
  dsimp only at h
  split at h
  · injection h with h
    rw [← h]
    exact cr_not_mem_getContentType _
  · injection h with h
    rw [← h]
    exact cr_not_mem_getContentType _
  · split_ifs at h
    · injection h with h
      exact h ▸ trivial
    · exact pageRequest_plain hfiles h

theorem AnswersGet.plain {m : ConnM Bool} {a : Answer} (h : AnswersGet w c m a)
    (hfiles : PlainFiles w) : a.Plain := by
  cases h with
  | request h => exact request_plain hfiles h
  | pageRequest hrequest hget h => exact pageRequest_plain hfiles h
  | missing => exact missing_plain w c
  | page code body => trivial

/-- What has been emitted since then says itself where it ends. -/
def SelfDelimiting (o o' : Output) : Prop :=
  ∃ bytes, Output.emitted o' = Output.emitted o ++ bytes ∧ Delimits bytes

theorem selfDelimiting_iff {lines : List Bytes} {body : Bytes} {size : Nat} {o' : Output}
    (hemitted : Output.emitted o' = Output.emitted o ++ (renderLines lines ++ crlf ++ body))
    (hlines : HeaderLines lines) (hsize : fieldValues contentLengthField lines = [decimal size]) :
    SelfDelimiting o o' ↔ body.length = size := by
  rw [← delimits_iff hlines hsize]
  constructor
  · rintro ⟨bytes, hbytes, hdelimits⟩
    rw [hemitted] at hbytes
    exact List.append_cancel_left hbytes ▸ hdelimits
  · exact fun hdelimits => ⟨_, hemitted, hdelimits⟩

/-- **Self-delimiting answers.** On an open connection with no failure, the bytes behind the blank line
of an answer to a GET request that is not for a range are as many as its `Content-Length` says, exactly
if the answer is no error page, and no file of which a `read` yields nothing before the size it had when
it was opened. -/
theorem contentLength_iff {m : ConnM Bool} {a : Answer} (hanswer : AnswersGet w c m a)
    (hstate : c.state ≠ .handlingHixieWebSocket) (hopen : c.closing = false)
    (hnoError : c.out.hadSendError = false) (htexts : PlainTexts w) (hplain : PlainFiles w)
    (hepoll : Output.EpollSucceeds w) (hunranged : a.Unranged) :
    ∃ result c', m.run c = .ok result c' ∧
      (Connection.NoFailure c c' → (SelfDelimiting c.out c'.out ↔ a.Exact w c.out)) := by
  obtain ⟨⟨done, hdone⟩, log, log', body, hadds, hbody⟩ :=
    (send_exact (o := c.out) hepoll hunranged).run
  have hgives := hanswer.gives hstate
  unfold Gives Ends at hgives
  cases hrun : m.run c with
  | error e c' =>
      rw [hrun] at hgives
      obtain ⟨f, -, hfault⟩ := hgives
      rw [hdone] at hfault
      cases hfault
  | ok result c' =>
      rw [hrun] at hgives
      refine ⟨result, c', rfl, fun hquiet => ?_⟩
      rw [hgives] at hadds
      obtain ⟨events, hlog, hemitted⟩ := hadds
      dsimp only at hlog hemitted
      rw [Connection.NoFailure, hlog, List.drop_left] at hquiet
      rw [selfDelimiting_iff (hemitted hopen hnoError hquiet)
        (lines_headerLines htexts (hanswer.plain hplain) log log') (fieldValues_lines hunranged _ _)]
      exact hbody

/-- The answer to a GET request for a small file. -/
theorem contentLength_iff_file :
    ∃ result c', (Connection.processRequest World.files .get (ascii "/") HeaderMap.empty).run
        Connection.fresh = .ok result c' ∧
      Connection.NoFailure Connection.fresh c' ∧ SelfDelimiting Connection.fresh.out c'.out := by
  have htexts : PlainTexts World.files :=
    ⟨⟨List.not_mem_nil, List.not_mem_nil⟩, fun _ => ⟨List.not_mem_nil, List.not_mem_nil⟩⟩
  have hplain : PlainFiles World.files := by
    intro calls path file hfile
    injection hfile with hfile
    rw [← hfile]
    exact List.not_mem_nil
  have hfiles : Output.ReadsFiles World.files :=
    ⟨fun _ _ => rfl, fun _ _ _ count hcount => ⟨count, rfl, hcount⟩⟩
  have hanswer : AnswersGet World.files Connection.fresh
      (Connection.processRequest World.files .get (ascii "/") HeaderMap.empty)
      (.staticFile (ascii "/index.html") ⟨4, ascii "text", []⟩ []) :=
    .request (by decide +kernel)
  obtain ⟨result, c', hrun, hdelimits⟩ :=
    contentLength_iff hanswer (by decide) rfl rfl htexts hplain (fun _ _ => rfl) rfl
  obtain ⟨result', c'', hrun', hquiet⟩ := Connection.exists_run_of_quiet (c := Connection.fresh)
    (m := Connection.processRequest World.files .get (ascii "/") HeaderMap.empty) (by decide +kernel)
  rw [hrun] at hrun'
  injection hrun' with _ hsame
  rw [← hsame] at hquiet
  refine ⟨result, c', hrun, hquiet, (hdelimits hquiet).mpr ?_⟩
  exact (exact_staticFile_iff hfiles _ _ _).mpr (Nat.le_refl 4)

/-- An error page, with a line end that its length does not count. -/
theorem not_selfDelimiting_of_page :
    ∃ c', Connection.run World.plain
        [.readable (.data ⟨ascii "GET / HTTP/1.1\r\n\r\n", by decide⟩)] Connection.fresh = .ok c' ∧
      Connection.NoFailure Connection.fresh c' ∧ ¬ SelfDelimiting Connection.fresh.out c'.out := by
  have hrun : (do
      let c' ← Connection.run World.plain
        [.readable (.data ⟨ascii "GET / HTTP/1.1\r\n\r\n", by decide⟩)] Connection.fresh
      return decide ((∀ event ∈ c'.out.log.drop 0, Output.isFailure event = false) ∧
        Output.emitted c'.out = renderLines (Output.pageLines World.plain .notFound
          (ascii "Unable to find resource for: /") []) ++ crlf ++
            (Output.errorDocument World.plain .notFound (ascii "Unable to find resource for: /")
              ++ crlf))) = (.ok true : Except Fault Bool) := by
    decide +kernel
  obtain ⟨c', hc', hrun⟩ := ok_of_bind_eq_ok hrun
  injection hrun with hrun
  obtain ⟨hquiet, hemitted⟩ := of_decide_eq_true hrun
  have htexts : PlainTexts World.plain :=
    ⟨⟨List.not_mem_nil, List.not_mem_nil⟩, fun _ => ⟨List.not_mem_nil, List.not_mem_nil⟩⟩
  refine ⟨c', hc', hquiet, fun h => ?_⟩
  have hexact := (length_body_iff (o := Connection.fresh.out)
    (a := .page .notFound (ascii "Unable to find resource for: /")) rfl).mp
    ((selfDelimiting_iff (o := Connection.fresh.out) hemitted
      (lines_headerLines htexts (a := .page .notFound (ascii "Unable to find resource for: /")) trivial
        [] [])
      (fieldValues_lines (a := .page .notFound (ascii "Unable to find resource for: /")) trivial _
        [])).mp h)
  exact hexact

end Answer

end Seasocks
