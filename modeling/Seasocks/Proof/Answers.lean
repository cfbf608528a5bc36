import Seasocks.Proof.EchoedHeaders
import Seasocks.Proof.RangeBounds
import Seasocks.Proof.WriterProtocol

/-!
# What a connection answers by itself

Documents, static files and error pages: which of them a request is answered with, and the header lines
and the body that are sent for it.
-/

namespace Seasocks

open Program Relation

variable {w : World} {c : Connection} {o : Output}

/-! ### Answers -/

/-- What is sent for a request without the application's help. A `header` is that of a document. -/
inductive Answer where
  | document (type content : Bytes)
  | header (type : Bytes) (size : Nat)
  | staticFile (path : Bytes) (file : File) (ranges : List Range)
  | page (code : ResponseCode) (body : Bytes)
deriving DecidableEq, Repr

namespace Answer

def send (w : World) : Answer → OutM (Except Fault Bool)
  | .document type content => do return .ok (← Output.sendData w type content)
  | .header type size => do return .ok (← Output.sendHeader w type size)
  | .staticFile path file ranges => Output.sendFile w path file ranges
  | .page code body => do return .ok (← Output.sendError w code body)

/-- The answer of `send404`. -/
def missing (w : World) (c : Connection) : Answer :=
  match w.embeddedContent c.getRequestUri with
  | some embedded => .document (getContentType c.getRequestUri) embedded
  | none =>
      if cString c.getRequestUri = ascii "/_livestats.js" then
        .document (ascii "text/javascript") (w.statsDocument c.out.log)
      else
        .page .notFound (ascii "Unable to find resource for: " ++ c.getRequestUri)

/-- The answer of `sendStaticData`, unless the `Range` header makes it throw. -/
def staticData (w : World) (c : Connection) : Option Answer :=
  let path := Connection.trimQuery (w.staticPath ++ c.getRequestUri)
  match path.getLast? with
  | none => none
  | some last =>
      let path := if last = 47 then path ++ ascii "index.html" else path
      match w.openFile c.calls path with
      | none => some (missing w c)
      | some file =>
          match if c.getHeader (ascii "Range") = [] then .ok (some [])
            else parseRanges (c.getHeader (ascii "Range")) with
          | .error _ => none
          | .ok none => some (.page .badRequest (ascii "Bad range header"))
          | .ok (some ranges) => some (.staticFile path file ranges)

/-- The answer of `handlePageRequest`, unless a page handler responds. -/
def pageRequest (w : World) (c : Connection) (request : PageRequest) : Option Answer :=
  match w.handle c.calls request with
  | .throws what => some (.page .internalServerError what)
  | .throwsUnknown => some (.page .internalServerError (ascii "(unknown)"))
  | .response _ => none
  | .unhandled => staticData w { c with calls := c.calls ++ [⟨.handle request, c.out⟩] }

/-- The answer of `processHeaders`, unless it waits for the body of the request. -/
def request (w : World) (c : Connection) (verb : Verb) (requestUri : Bytes) (headers : HeaderMap) :
    Option Answer :=
  let request := PageRequest.create requestUri verb headers
  match verb, w.embeddedContent requestUri with
  | .get, some embedded => some (.document (getContentType requestUri) embedded)
  | .head, some embedded => some (.header (getContentType requestUri) embedded.length)
  | _, _ =>
      if w.clientBufferSize < request.contentLength then
        some (.page .badRequest (ascii "Content length too long"))
      else if request.contentLength = 0 then
        pageRequest w { c with request := some request } request
      else none

/-- The routine does on the output side what sending the answer does. -/
def Gives (w : World) (m : ConnM Bool) (c : Connection) (a : Answer) : Prop :=
  Ends m c (fun result c' => (a.send w).run c.out = (.ok result, c'.out))
    fun e _ => ∃ f, e = .fault f ∧ ((a.send w).run c.out).1 = .error f

theorem gives_sendError (code : ResponseCode) (body : Bytes)
    (hstate : c.state ≠ .handlingHixieWebSocket) :
    Gives w (Connection.sendError w code body) c (.page code body) := by
  rw [Gives, Connection.sendError, ends_bind, ends_get, if_neg hstate]
  exact rfl

theorem gives_sendData (type content : Bytes) :
    Gives w (Connection.liftOut (Output.sendData w type content)) c (.document type content) := by
  rw [Gives, Connection.ends_liftOut]
  exact rfl

theorem gives_sendHeader (type : Bytes) (size : Nat) :
    Gives w (Connection.liftOut (Output.sendHeader w type size)) c (.header type size) := by
  rw [Gives, Connection.ends_liftOut]
  exact rfl

theorem gives_send404 (hstate : c.state ≠ .handlingHixieWebSocket) :
    Gives w (Connection.send404 w) c (missing w c) := by
  rw [Gives, Connection.send404, ends_bind, ends_get, missing]
  dsimp only
  cases hembedded : w.embeddedContent c.getRequestUri with
  | some embedded => exact gives_sendData _ _
  | none =>
      dsimp only
      by_cases hstats : cString c.getRequestUri = ascii "/_livestats.js"
      · rw [if_pos hstats, if_pos hstats]
        exact gives_sendData _ _
      · rw [if_neg hstats, if_neg hstats]
        exact gives_sendError _ _ hstate

theorem gives_liftChecked (path : Bytes) (file : File) (ranges : List Range) :
    Gives w (Connection.liftChecked (Output.sendFile w path file ranges)) c
      (.staticFile path file ranges) := by
  rw [Gives, Connection.liftChecked, ends_bind, Connection.ends_liftOut]
  unfold After
  cases hresult : ((Output.sendFile w path file ranges).run c.out).1 with
  | ok result =>
      have hsent : (send w (.staticFile path file ranges)).run c.out =
          (.ok result, ((Output.sendFile w path file ranges).run c.out).2) := Prod.ext hresult rfl
      exact hsent
  | error f =>
      have hsent : ((send w (.staticFile path file ranges)).run c.out).1 = .error f := hresult
      exact ⟨f, rfl, hsent⟩

theorem gives_sendStaticData {a : Answer} (hstate : c.state ≠ .handlingHixieWebSocket)
    (ha : staticData w c = some a) : Gives w (Connection.sendStaticData w) c a := by
  rw [staticData] at ha
  dsimp only at ha
  rw [Gives, Connection.sendStaticData, ends_bind, ends_get]
  dsimp only
  cases hlast : (Connection.trimQuery (w.staticPath ++ c.getRequestUri)).getLast? with
  | none =>
      rw [hlast] at ha
      cases ha
  | some last =>
      rw [hlast] at ha
      dsimp only at ha ⊢
      rw [ends_bind, Connection.record, ends_modify]
      cases hfile : w.openFile c.calls
          (if last = 47 then Connection.trimQuery (w.staticPath ++ c.getRequestUri) ++ ascii "index.html"
          else Connection.trimQuery (w.staticPath ++ c.getRequestUri)) with
      | none =>
          rw [hfile] at ha
          injection ha with ha
          rw [← ha]
          exact gives_send404 hstate
      | some file =>
          rw [hfile] at ha
          dsimp only at ha ⊢
          cases hranges : (if c.getHeader (ascii "Range") = [] then .ok (some [])
            else parseRanges (c.getHeader (ascii "Range")) : Except LogicError (Option (List Range))) with
          | error e =>
              rw [hranges] at ha
              cases ha
          | ok parsed =>
              rw [hranges] at ha
              cases parsed with
              | none =>
                  injection ha with ha
                  rw [← ha]
                  exact gives_sendError _ _ hstate
              | some ranges =>
                  injection ha with ha
                  rw [← ha]
                  exact gives_liftChecked _ _ _

theorem gives_handlePageRequest {a : Answer} {request : PageRequest}
    (hstate : c.state ≠ .handlingHixieWebSocket) (hrequest : c.request = some request)
    (hverb : request.verb ≠ .webSocket) (ha : pageRequest w c request = some a) :
    Gives w (Connection.handlePageRequest w) c a := by
  rw [pageRequest] at ha
  rw [Gives, Connection.handlePageRequest, ends_bind, Connection.theRequest, ends_bind, ends_get,
    hrequest]
  dsimp only
  rw [ends_pure, ends_bind, ends_get, ends_bind, Connection.record, ends_modify]
  cases houtcome : w.handle c.calls request with
  | unhandled =>
      rw [houtcome] at ha
      dsimp only at ha ⊢
      rw [if_neg hverb]
      exact gives_sendStaticData hstate ha
  | response response =>
      rw [houtcome] at ha
      cases ha
  | throws what =>
      rw [houtcome] at ha
      injection ha with ha
      rw [← ha]
      exact gives_sendError _ _ hstate
  | throwsUnknown =>
      rw [houtcome] at ha
      injection ha with ha
      rw [← ha]
      exact gives_sendError _ _ hstate

theorem gives_processRequest {a : Answer} {verb : Verb} {requestUri : Bytes} {headers : HeaderMap}
    (hstate : c.state ≠ .handlingHixieWebSocket) (hverb : verb ≠ .webSocket)
    (ha : request w c verb requestUri headers = some a) :
    Gives w (Connection.processRequest w verb requestUri headers) c a := by
  have other : (if w.clientBufferSize < (PageRequest.create requestUri verb headers).contentLength then
        some (.page .badRequest (ascii "Content length too long"))
      else if (PageRequest.create requestUri verb headers).contentLength = 0 then
        pageRequest w { c with request := some (PageRequest.create requestUri verb headers) }
          (PageRequest.create requestUri verb headers)
      else none) = some a →
      Gives w (if w.clientBufferSize < (PageRequest.create requestUri verb headers).contentLength then
          Connection.sendBadRequest w (ascii "Content length too long")
        else if (PageRequest.create requestUri verb headers).contentLength = 0 then
          Connection.handlePageRequest w
        else do
          Connection.setState .bufferingPostData
          return true) { c with request := some (PageRequest.create requestUri verb headers) } a := by
    intro ha
    split_ifs at ha ⊢ with hlong hempty
    · injection ha with ha
      rw [← ha]
      exact gives_sendError _ _ hstate
    · exact gives_handlePageRequest hstate rfl hverb ha
  unfold request at ha
  rw [Gives]
  unfold Connection.processRequest
  rw [ends_bind, ends_modify]
  cases hembedded : w.embeddedContent requestUri with
  | none =>
      rw [hembedded] at ha
      cases verb <;> exact other ha
  | some embedded =>
      rw [hembedded] at ha
      cases verb with
      | get =>
          injection ha with ha
          rw [← ha]
          exact gives_sendData _ _
      | head =>
          injection ha with ha
          rw [← ha]
          exact gives_sendHeader _ _
      | webSocket => exact absurd rfl hverb
      | _ => exact other ha

end Answer

/-! ### Writing while nothing fails -/

namespace Output

/-- An open connection is closed by failures only. -/
theorem fails_of_closing {bytes : Bytes} {o' : Output} (hemits : Emits bytes o o')
    (hclosing : o.closing = false → o.hadSendError = false → o'.closing = true) : Fails o o' := by
  obtain ⟨events, hlog, hemits⟩ := hemits
  refine ⟨events, hlog, fun hopen hnoError => ?_⟩
  by_contra hnone
  have hquiet : ∀ event ∈ events, isFailure event = false := by
    intro event hevent
    by_contra hfailure
    exact hnone ⟨event, hevent, by simpa using hfailure⟩
  have hopen' := (hemits hopen hnoError hquiet).1
  rw [hclosing hopen hnoError] at hopen'
  cases hopen'

theorem steady_of_open (hopen : o.closing = false) (hnoError : o.hadSendError = false) : Steady o := by
  refine ⟨hnoError, fun hmarked => ?_⟩
  rw [closing, hmarked, Bool.or_true] at hopen
  cases hopen

theorem flush_or_fails (hepoll : EpollSucceeds w) :
    After (flush w) o fun done o' => Emits [] o o' ∧ (done = false → Fails o o') := by
  by_cases hnoError : o.hadSendError = false
  · have hsettled := flush_settled (w := w) hepoll hnoError
    refine (flush_emits.and hsettled).mono fun done o' h => ⟨h.1, fun hfailed => ?_⟩
    refine fails_of_closing h.1 fun _ _ => ?_
    rw [closing, h.2.2 hfailed, Bool.true_or]
  · refine flush_emits.mono fun done o' h => ⟨h, fun _ => ?_⟩
    exact fails_of_closing h fun _ hclear => absurd hclear hnoError

theorem write_or_fails {data : Bytes} (hsize : data.length < 2 ^ 32) (hepoll : EpollSucceeds w) :
    After (write w data true) o fun done o' => Emits data o o' ∧ (done = false → Fails o o') := by
  have hemits := write_emits (w := w) (o := o) data true fun _ => not_truncates_of_lt hsize
  by_cases hopen : o.closing = false ∧ o.hadSendError = false
  · have hsettled := write_settled data true hepoll (steady_of_open hopen.1 hopen.2)
    refine (hemits.and hsettled).mono fun done o' h => ⟨h.1.1, fun hfailed => ?_⟩
    exact fails_of_closing h.1.1 fun _ _ => h.2.2 hfailed
  · refine hemits.mono fun done o' h => ⟨h.1, fun _ => ?_⟩
    exact fails_of_closing h.1 fun hno herror => absurd ⟨hno, herror⟩ hopen

/-! ### Copying a file -/

theorem readAmount_pos {bytesLeft : Int} (hleft : 0 ≤ bytesLeft) (hmore : bytesLeft ≠ 0) :
    0 < readAmount bytesLeft := by
  have hamount := readAmount_of_nonneg hleft
  rw [readWriteBufferSize] at hamount
  omega

/-- The bytes a `read` of the copying loop that is told this number yields. -/
def block (content : Bytes) (offset : Nat) (bytesLeft : Int) (bytesRead : Nat) : Bytes :=
  (content.drop offset).take (min bytesRead (readAmount bytesLeft))

theorem length_block_le (content : Bytes) (offset : Nat) (bytesLeft : Int) (bytesRead : Nat) :
    (block content offset bytesLeft bytesRead).length ≤ readAmount bytesLeft := by
  rw [block, List.length_take]
  exact (Nat.min_le_left _ _).trans (Nat.min_le_right _ _)

/-- Every `read` of the copying loop yields a byte at least, up to the end of the range. -/
def ReadsOn (w : World) (path content : Bytes) : Nat → Nat → Int → Output → Prop
  | 0, _, bytesLeft, _ => bytesLeft = 0
  | fuel + 1, offset, bytesLeft, o => bytesLeft = 0 ∨ ∃ bytesRead,
      w.readFile o.log path offset (readAmount bytesLeft) = some bytesRead ∧
        block content offset bytesLeft bytesRead ≠ [] ∧
        ReadsOn w path content fuel (offset + (block content offset bytesLeft bytesRead).length)
          (bytesLeft - (block content offset bytesLeft bytesRead).length)
          ((write w (block content offset bytesLeft bytesRead) true).run o).2

/-- What is left of a range behind a block of it. -/
theorem take_block {content buf : Bytes} {offset count : Nat} {bytesLeft : Int}
    (hbuf : (content.drop offset).take count = buf) (hlength : (buf.length : Int) ≤ bytesLeft) :
    (content.drop offset).take bytesLeft.toNat =
      buf ++ (content.drop (offset + buf.length)).take (bytesLeft - buf.length).toNat := by
  have hsplit : bytesLeft.toNat = buf.length + (bytesLeft - buf.length).toNat := by omega
  have htaken : (content.drop offset).take buf.length = buf := by
    rw [← hbuf, List.length_take, ← List.take_eq_take_min]
  rw [hsplit, List.take_add, List.drop_drop, htaken]

/-- Bytes that are as many as `size` or not, as needed. -/
theorem exists_bytes_iff (size : Nat) (p : Prop) (hzero : size = 0 → p) :
    ∃ body : Bytes, body.length = size ↔ p := by
  by_cases hp : p
  · exact ⟨List.replicate size 0, iff_of_true List.length_replicate hp⟩
  · exact ⟨[], iff_of_false (fun hnil => hp (hzero hnil.symm)) hp⟩

/-- Every block that is read is sent. A range that does not end before it begins is copied up to its
end if every read yields something. -/
theorem copyRange_emits (hepoll : EpollSucceeds w) (path content : Bytes) (fuel offset : Nat)
    (bytesLeft : Int) (o : Output) :
    After (copyRange w path content fuel offset bytesLeft) o fun result o' => ∃ body, Emits body o o' ∧
      (0 ≤ bytesLeft → (∃ done, result = .ok done) ∧
        ((body.length : Int) = bytesLeft ↔ ReadsOn w path content fuel offset bytesLeft o)) := by
  induction fuel generalizing offset bytesLeft o with
  | zero => exact ⟨[], Emits.refl o, fun _ => ⟨⟨false, rfl⟩, eq_comm⟩⟩
  | succ fuel ih =>
      rw [copyRange, after_ite]
      refine ⟨fun hdone => ⟨[], Emits.refl o, fun _ => ⟨⟨true, rfl⟩, ?_⟩⟩, fun hmore => ?_⟩
      · exact iff_of_true hdone.symm (Or.inl hdone)
      rw [after_bind, after_get, ReadsOn, or_iff_right hmore]
      cases hread : w.readFile o.log path offset (readAmount bytesLeft) with
      | none =>
          refine ⟨[], Emits.refl o, fun _ => ⟨⟨false, rfl⟩, iff_of_false (Ne.symm hmore) ?_⟩⟩
          rintro ⟨bytesRead, hsome, -⟩
          cases hsome
      | some bytesRead =>
          have hlength := length_block_le content offset bytesLeft bytesRead
          simp only [Option.some.injEq, exists_eq_left', block] at hlength ⊢
          generalize (content.drop offset).take (min bytesRead (readAmount bytesLeft)) = buf at hlength ⊢
          rw [after_ite]
          refine ⟨fun hempty => ⟨[], Emits.refl o, fun _ => ⟨⟨false, rfl⟩, ?_⟩⟩, fun hblock => ?_⟩
          · exact iff_of_false (Ne.symm hmore) fun h => h.1 hempty
          rw [after_ite]
          refine ⟨fun hlarge => ⟨[], Emits.refl o, fun hleft => ?_⟩, fun hfits => ?_⟩
          · have hamount := readAmount_of_nonneg hleft
            omega
          have hsmall : buf.length < 2 ^ 32 := by
            rw [readWriteBufferSize] at hfits
            omega
          rw [after_bind]
          have hwrite := write_or_fails (o := o) hsmall hepoll
          unfold After at hwrite ⊢
          generalize ((write w buf true).run o).1 = done at hwrite ⊢
          generalize ((write w buf true).run o).2 = o₁ at hwrite ⊢
          obtain ⟨hemits, hfails⟩ := hwrite
          cases done with
          | true =>
              obtain ⟨body, hbody, hexact⟩ := (ih (offset + buf.length) (bytesLeft - buf.length) o₁).run
              refine ⟨buf ++ body, hemits.trans hbody, fun hleft => ?_⟩
              have hamount := readAmount_of_nonneg hleft
              obtain ⟨hreturns, hiff⟩ := hexact (by omega)
              refine ⟨hreturns, ?_⟩
              rw [and_iff_right hblock, ← hiff, List.length_append]
              omega
          | false =>
              by_cases hleft : 0 ≤ bytesLeft
              · obtain ⟨body, hbody⟩ := exists_bytes_iff bytesLeft.toNat (buf ≠ [] ∧
                  ReadsOn w path content fuel (offset + buf.length) (bytesLeft - buf.length) o₁) (by omega)
                refine ⟨body, (hfails rfl).emits body, fun _ => ⟨⟨false, rfl⟩, ?_⟩⟩
                rw [← hbody]
                omega
              · exact ⟨buf, hemits, fun h => absurd h hleft⟩

theorem copyRanges_emits (hepoll : EpollSucceeds w) (path content : Bytes) (ranges : List Range)
    (o : Output) :
    After (copyRanges w path content ranges) o fun _ o' => ∃ body, Emits body o o' := by
  induction ranges generalizing o with
  | nil => exact ⟨[], Emits.refl o⟩
  | cons range ranges ih =>
      rw [copyRanges, after_bind, after_get, after_ite]
      refine ⟨fun _ => ⟨[], Emits.refl o⟩, fun _ => ?_⟩
      refine (copyRange_emits hepoll _ _ _ _ _ _).bind fun result o₁ h₁ => ?_
      obtain ⟨body, hemits, -⟩ := h₁
      rcases result with f | _ | _
      · exact ⟨body, hemits⟩
      · exact ⟨body, hemits⟩
      · refine (ih o₁).mono fun _ o' h => ?_
        obtain ⟨body', hemits'⟩ := h
        exact ⟨body ++ body', hemits.trans hemits'⟩

/-- As many bytes of the file are read as there were when it was opened. -/
def ReadsWhole (w : World) (path : Bytes) (file : File) (o : Output) : Prop :=
  file.size = 0 ∨
    w.seek o.log path = true ∧ ReadsOn w path file.content (file.content.length + 1) 0 file.size o

/-- A file that is asked for as a whole is sent up to its size if it can be read up to there. -/
theorem copyRanges_whole (hepoll : EpollSucceeds w) (path : Bytes) (file : File) (o : Output) :
    After (copyRanges w path file.content [⟨0, file.size - 1⟩]) o fun result o' =>
      (∃ done, result = .ok done) ∧
        ∃ body, Emits body o o' ∧ (body.length = file.size ↔ ReadsWhole w path file o) := by
  have hlength : (⟨0, file.size - 1⟩ : Range).length = file.size := by
    dsimp only [Range.length]
    omega
  rw [copyRanges, after_bind, after_get, after_ite, hlength]
  refine ⟨fun hno => ?_, fun hseek => ?_⟩
  · refine ⟨⟨false, rfl⟩, [], Emits.refl o, eq_comm.trans (or_iff_left fun h => ?_).symm⟩
    rw [h.1] at hno
    simp at hno
  · have hseeks : w.seek o.log path = true := by simpa using hseek
    refine (copyRange_emits hepoll path file.content (file.content.length + 1) 0 file.size o).bind
      fun result o₁ h₁ => ?_
    obtain ⟨body, hemits, hexact⟩ := h₁
    obtain ⟨⟨done, rfl⟩, hiff⟩ := hexact (Int.natCast_nonneg _)
    have hwhole : body.length = file.size ↔ ReadsWhole w path file o := by
      rw [Int.natCast_inj] at hiff
      rw [ReadsWhole, and_iff_right hseeks, ← hiff]
      refine ⟨Or.inr, fun h => h.elim (fun hzero => ?_) id⟩
      rw [hiff, ReadsOn, hzero]
      exact Or.inl rfl
    cases done with
    | true => exact ⟨⟨true, rfl⟩, body, hemits, hwhole⟩
    | false => exact ⟨⟨false, rfl⟩, body, hemits, hwhole⟩

/-! ### Header lines -/

def contentLines (type : Bytes) (size : Nat) : List Bytes :=
  [ascii "Content-Type: " ++ type, ascii "Content-Length: " ++ decimal size,
    ascii "Connection: keep-alive"]

theorem bufferContentHeaders_lines (type : Bytes) (size : Nat) :
    After (bufferContentHeaders w type size) o fun _ o' => ∃ log,
      Emits (renderLines (commonLines w .ok (w.now log) ++ contentLines type size) ++ crlf) o o' ∧
        Buffered o o' := by
  refine (bufferResponseAndCommonHeaders_lines _).bind fun _ o₁ ⟨log, h₁⟩ => ?_
  refine (bufferLine_lines _).bind fun _ o₂ h₂ => (bufferLine_lines _).bind fun _ o₃ h₃ => ?_
  refine (bufferText_lines _).bind fun _ o₄ h₄ => ?_
  have hlines : Emits (renderLines (commonLines w .ok (w.now log) ++ contentLines type size)) o o₄ := by
    have hlines := ((h₁.lines h₂).lines h₃).lines h₄
    rwa [List.append_assoc, List.append_assoc] at hlines
  refine ((bufferText_emits _).and (bufferText_buffered _)).mono fun _ o' h => ?_
  exact ⟨log, hlines.trans h.1, h.2.imp_left hlines.fails⟩

theorem sendData_emits (type content : Bytes) :
    After (sendData w type content) o fun _ o' => ∃ log, Emits (renderLines
      (commonLines w .ok (w.now log) ++ contentLines type content.length) ++ crlf ++ content) o o' := by
  refine (bufferContentHeaders_lines _ _).bind fun _ o₁ ⟨log, h₁, hbuffered⟩ => ?_
  exact (write_emits_of_buffered content true h₁ hbuffered).mono fun _ _ h => ⟨log, h⟩

/-- The ranges `processRangesForStaticData` returns. -/
def sentRanges (ranges : List Range) (size : Nat) : List Range :=
  if ranges = [] then [⟨0, size - 1⟩] else ranges.map (clampRange size)

/-- The lines of `processRangesForStaticData`. -/
def rangeLines (w : World) (ranges : List Range) (size : Nat) (date : Bytes) : List Bytes :=
  if ranges = [] then
    commonLines w .ok date ++ [ascii "Content-Length: " ++ decimal size]
  else
    commonLines w .partialContent date ++ [rangeLine (sentRanges ranges size) size,
      ascii "Content-Length: " ++ decimal (contentLength (sentRanges ranges size))]

theorem signedDecimal_natCast (n : Nat) : signedDecimal n = decimal n := by
  rw [signedDecimal, if_neg (by omega), Int.toNat_natCast]

theorem processRangesForStaticData_lines (ranges : List Range) (size : Nat) :
    After (processRangesForStaticData w ranges size) o fun sent o' => sent = sentRanges ranges size ∧
      ∃ log, Emits (renderLines (rangeLines w ranges size (w.now log))) o o' := by
  rw [processRangesForStaticData, after_ite]
  refine ⟨fun hwhole => ?_, fun hpartial => ?_⟩
  · refine (bufferResponseAndCommonHeaders_lines _).bind fun _ o₁ hcommon => ?_
    obtain ⟨log, h₁⟩ := hcommon
    refine (bufferLine_lines _).bind fun _ o₂ h₂ => ?_
    refine ⟨(if_pos hwhole).symm, log, ?_⟩
    rw [rangeLines, if_pos hwhole, ← signedDecimal_natCast]
    exact h₁.lines h₂
  · refine (bufferResponseAndCommonHeaders_lines _).bind fun _ o₁ hcommon => ?_
    obtain ⟨log, h₁⟩ := hcommon
    refine (bufferLine_lines _).bind fun _ o₂ h₂ => (bufferLine_lines _).bind fun _ o₃ h₃ => ?_
    have hlines := (h₁.lines h₂).lines h₃
    rw [List.append_assoc] at hlines
    refine ⟨(if_neg hpartial).symm, log, ?_⟩
    rw [rangeLines, if_neg hpartial, sentRanges, if_neg hpartial]
    exact hlines

/-- The lines of a file that is not to be kept. -/
def cacheLines (path expires : Bytes) : List Bytes :=
  if !isCacheable path then
    [ascii "Cache-Control: no-store", ascii "Pragma: no-cache", ascii "Expires: " ++ expires]
  else []

/-- The header lines of `sendStaticData`. -/
def fileLines (w : World) (path : Bytes) (file : File) (ranges : List Range) (date expires : Bytes) :
    List Bytes :=
  rangeLines w ranges file.size date
    ++ [ascii "Content-Type: " ++ getContentType path, ascii "Connection: keep-alive",
      ascii "Accept-Ranges: bytes", ascii "Last-Modified: " ++ file.lastModified]
    ++ cacheLines path expires

/-- `sendStaticData` up to the copying: the ranges to copy, and whether the header has been sent. -/
def fileHead (w : World) (path : Bytes) (file : File) (ranges : List Range) :
    OutM (List Range × Bool) := do
  let ranges ← processRangesForStaticData w ranges file.size
  let _ ← bufferLine w (ascii "Content-Type: " ++ getContentType path)
  let _ ← bufferText w "Connection: keep-alive"
  let _ ← bufferText w "Accept-Ranges: bytes"
  let _ ← bufferLine w (ascii "Last-Modified: " ++ file.lastModified)
  if !isCacheable path then
    let _ ← bufferText w "Cache-Control: no-store"
    let _ ← bufferText w "Pragma: no-cache"
    let o ← get
    let _ ← bufferLine w (ascii "Expires: " ++ w.now o.log)
  let _ ← bufferText w ""
  let flushed ← flush w
  return (ranges, flushed)

theorem sendFile_eq (path : Bytes) (file : File) (ranges : List Range) :
    sendFile w path file ranges = do
      let (ranges, flushed) ← fileHead w path file ranges
      if flushed then copyRanges w path file.content ranges else return .ok false := by
  rw [sendFile, fileHead]
  split_ifs with hcache
  · simp only [bind_assoc, pure_bind]
  · simp only [bind_assoc, pure_bind]

theorem fileHead_emits (hepoll : EpollSucceeds w) (path : Bytes) (file : File) (ranges : List Range) :
    After (fileHead w path file ranges) o fun head o' => head.1 = sentRanges ranges file.size ∧
      ∃ log log', Emits
        (renderLines (fileLines w path file ranges (w.now log) (w.now log')) ++ crlf) o o' ∧
          (head.2 = false → Fails o o') := by
  have last : ∀ log log' o₁,
      Emits (renderLines (fileLines w path file ranges (w.now log) (w.now log'))) o o₁ → After (do
        let _ ← bufferText w ""
        let flushed ← flush w
        return (sentRanges ranges file.size, flushed)) o₁ fun head o' =>
          head.1 = sentRanges ranges file.size ∧ ∃ log log', Emits
            (renderLines (fileLines w path file ranges (w.now log) (w.now log')) ++ crlf) o o' ∧
              (head.2 = false → Fails o o') := by
    intro log log' o₁ h₁
    refine (bufferText_emits _).bind fun _ o₂ h₂ => (flush_or_fails hepoll).bind fun done o₃ h₃ => ?_
    have hhead := h₁.trans h₂
    have hflushed := hhead.trans h₃.1
    rw [List.append_nil] at hflushed
    exact ⟨rfl, log, log', hflushed, fun hfailed => hhead.fails (h₃.2 hfailed)⟩
  refine (processRangesForStaticData_lines _ _).bind fun sent o₁ ⟨hsent, log, h₁⟩ => ?_
  rw [hsent]
  refine (bufferLine_lines _).bind fun _ o₂ h₂ => (bufferText_lines _).bind fun _ o₃ h₃ => ?_
  refine (bufferText_lines _).bind fun _ o₄ h₄ => (bufferLine_lines _).bind fun _ o₅ h₅ => ?_
  have hlines := (((h₁.lines h₂).lines h₃).lines h₄).lines h₅
  rw [List.append_assoc (rangeLines _ _ _ _), List.append_assoc (rangeLines _ _ _ _),
    List.append_assoc (rangeLines _ _ _ _)] at hlines
  rw [after_ite]
  refine ⟨fun hcache => ?_, fun hcache => ?_⟩
  · refine (bufferText_lines _).bind fun _ o₆ h₆ => (bufferText_lines _).bind fun _ o₇ h₇ => ?_
    rw [after_bind, after_get]
    refine (bufferLine_lines _).bind fun _ o₈ h₈ => ?_
    have hall := ((hlines.lines h₆).lines h₇).lines h₈
    refine last log o₇.log o₈ ?_
    rw [fileLines, cacheLines, if_pos hcache]
    rwa [List.append_assoc (_ ++ _), List.append_assoc (_ ++ _)] at hall
  · refine last log o₅.log o₅ ?_
    rw [fileLines, cacheLines, if_neg hcache, List.append_nil]
    exact hlines

/-- Where the copying begins. -/
def copyStart (w : World) (path : Bytes) (file : File) (ranges : List Range) (o : Output) : Output :=
  ((fileHead w path file ranges).run o).2

/-- The copying decides what holds after `sendFile`, if nothing has failed before. -/
theorem sendFile_rule {post : Except Fault Bool → Output → Prop} (hepoll : EpollSucceeds w)
    (path : Bytes) (file : File) (ranges : List Range) (hfails : ∀ o', Fails o o' → post (.ok false) o')
    (hcopy : ∀ log log', Emits
        (renderLines (fileLines w path file ranges (w.now log) (w.now log')) ++ crlf) o
        (copyStart w path file ranges o) →
      After (copyRanges w path file.content (sentRanges ranges file.size))
        (copyStart w path file ranges o) post) :
    After (sendFile w path file ranges) o post := by
  rw [sendFile_eq, after_bind]
  obtain ⟨hranges, log, log', hemits, hfailed⟩ := (fileHead_emits (o := o) hepoll path file ranges).run
  unfold After
  generalize ((fileHead w path file ranges).run o).1 = head at hranges hfailed ⊢
  obtain ⟨sent, flushed⟩ := head
  obtain rfl : sent = sentRanges ranges file.size := hranges
  cases flushed with
  | true => exact hcopy log log' hemits
  | false => exact hfails _ (hfailed rfl)

/-- The header lines of an error page. -/
def pageLines (w : World) (code : ResponseCode) (body date : Bytes) : List Bytes :=
  commonLines w code date ++ [ascii "Content-Length: " ++ decimal (errorDocument w code body).length,
    ascii "Connection: close"]

/-- The document of an error page is sent as a line. -/
theorem sendError_adds (code : ResponseCode) (body : Bytes) :
    After (sendError w code body) o fun _ o' => ∃ log, Connection.Adds
      (renderLines (pageLines w code body (w.now log)) ++ crlf ++ (errorDocument w code body ++ crlf))
      o o' := by
  refine (bufferResponseAndCommonHeaders_lines _).bind fun _ o₁ ⟨log, h₁⟩ => ?_
  refine (bufferLine_lines _).bind fun _ o₂ h₂ => (bufferText_lines _).bind fun _ o₃ h₃ => ?_
  refine (bufferText_emits _).bind fun _ o₄ h₄ => (bufferLine_emits _).bind fun _ o₅ h₅ => ?_
  refine flush_emits.bind fun done o₆ h₆ => ?_
  have hpage : Emits (renderLines (pageLines w code body (w.now log)) ++ crlf
      ++ (errorDocument w code body ++ crlf)) o o₆ := by
    have hlines := (h₁.lines h₂).lines h₃
    rw [List.append_assoc (commonLines _ _ _)] at hlines
    have hpage := ((hlines.trans h₄).trans h₅).trans h₆
    rwa [List.append_nil] at hpage
  rw [after_ite]
  refine ⟨fun _ => ?_, fun _ => ⟨log, Connection.adds_of_emits hpage List.prefix_rfl rfl⟩⟩
  have hgrow : After closeWhenEmpty o₆ fun _ o' => o₆.log <+: o'.log :=
    OpStep.log_grows (w := w) ⟨.closeWhenEmpty, rfl⟩
  refine ((closeWhenEmpty_emitted o₆).and hgrow).bind fun _ o₇ h₇ => ⟨log, ?_⟩
  exact Connection.adds_of_emits hpage h₇.2 h₇.1

end Output

/-! ### What is sent for an answer -/

namespace Answer

/-- The header lines, with the times at which they are sent. -/
def lines (w : World) (date expires : Bytes) : Answer → List Bytes
  | .document type content => Output.commonLines w .ok date ++ Output.contentLines type content.length
  | .header type size => Output.commonLines w .ok date ++ Output.contentLines type size
  | .staticFile path file ranges => Output.fileLines w path file ranges date expires
  | .page code body => Output.pageLines w code body date

/-- The body, unless it is copied from a file. -/
def body (w : World) : Answer → Option Bytes
  | .document _ content => some content
  | .header _ _ => some []
  | .staticFile _ _ _ => none
  | .page code body => some (Output.errorDocument w code body ++ crlf)

theorem send_adds {a : Answer} {body : Bytes} (hbody : a.body w = some body) :
    After (a.send w) o fun result o' => (∃ done, result = .ok done) ∧ ∃ log log', Connection.Adds
      (renderLines (a.lines w (w.now log) (w.now log')) ++ crlf ++ body) o o' := by
  cases a with
  | document type content =>
      injection hbody with hbody
      rw [← hbody]
      refine (Output.sendData_emits type content).bind fun done o' ⟨log, h⟩ => ?_
      exact ⟨⟨done, rfl⟩, log, log, Connection.adds_of_emits h List.prefix_rfl rfl⟩
  | header type size =>
      injection hbody with hbody
      rw [← hbody]
      refine (Output.bufferContentHeaders_lines _ _).bind fun done o₁ ⟨log, h₁, _⟩ => ?_
      refine ⟨⟨done, rfl⟩, log, log, ?_⟩
      rw [List.append_nil]
      exact Connection.adds_of_emits h₁ List.prefix_rfl rfl
  | staticFile path file ranges => cases hbody
  | page code text =>
      injection hbody with hbody
      rw [← hbody]
      refine (Output.sendError_adds code text).bind fun done o' ⟨log, h⟩ => ?_
      exact ⟨⟨done, rfl⟩, log, log, h⟩

end Answer

end Seasocks
