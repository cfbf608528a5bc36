import Seasocks.Proof.ContentLengths

/-!
# HEAD requests

What is sent for a HEAD request, compared with a GET request for the same target. Only an embedded
document is answered with its header alone; static files, the statistics and error pages come with the
body that GET gets.
-/

namespace Seasocks

open Program Relation

variable {w : World} {c : Connection} {o : Output}

/-! ### What the copying loop copies -/

namespace Output

/-- A first `read` of the copying loop would yield nothing. -/
def NoBlock (w : World) (log : List OutEvent) (path content : Bytes) (offset : Nat) (bytesLeft : Int) :
    Prop :=
  ∀ bytesRead, w.readFile log path offset (readAmount bytesLeft) = some bytesRead →
    block content offset bytesLeft bytesRead = []

/-- The copying of these ranges comes to an end before a byte is read. -/
def NothingToCopy (w : World) (log : List OutEvent) (path content : Bytes) : List Range → Prop
  | [] => True
  | range :: ranges =>
      range.start < 0 ∨ w.seek log path = false ∨
        range.length = 0 ∧ NothingToCopy w log path content ranges ∨
        range.length ≠ 0 ∧ NoBlock w log path content range.start.toNat range.length

/-- A first read that yields nothing ends the loop; any other one is sent. -/
theorem copyRange_first (hepoll : EpollSucceeds w) (path content : Bytes) (fuel offset : Nat)
    {bytesLeft : Int} (hmore : bytesLeft ≠ 0) (o : Output) :
    After (copyRange w path content (fuel + 1) offset bytesLeft) o fun result o' =>
      (NoBlock w o.log path content offset bytesLeft → result = .ok false ∧ o' = o) ∧
      (¬ NoBlock w o.log path content offset bytesLeft → ∀ done, result = .ok done →
        ∃ body, body ≠ [] ∧ Emits body o o') := by
  rw [copyRange, if_neg hmore, after_bind, after_get]
  cases hread : w.readFile o.log path offset (readAmount bytesLeft) with
  | none =>
      refine ⟨fun _ => ⟨rfl, rfl⟩, fun hsome => absurd ?_ hsome⟩
      intro bytesRead hsome
      rw [hread] at hsome
      cases hsome
  | some bytesRead =>
      have hnone : NoBlock w o.log path content offset bytesLeft ↔
          (content.drop offset).take (min bytesRead (readAmount bytesLeft)) = [] := by
        rw [NoBlock, hread]
        simp only [Option.some.injEq, forall_eq', block]
      dsimp only
      rw [hnone]
      generalize (content.drop offset).take (min bytesRead (readAmount bytesLeft)) = buf
      rw [after_ite]
      refine ⟨fun hempty => ⟨fun _ => ⟨rfl, rfl⟩, fun h => absurd hempty h⟩, fun hblock => ?_⟩
      rw [after_ite]
      refine ⟨fun _ => ⟨fun h => absurd h hblock, fun _ done hfault => by cases hfault⟩, fun hfits => ?_⟩
      have hsmall : buf.length < 2 ^ 32 := by
        rw [readWriteBufferSize] at hfits
        omega
      refine (write_or_fails hsmall hepoll).bind fun done o₁ h₁ => ?_
      rw [after_ite]
      refine ⟨fun _ => ?_, fun hfailed => ?_⟩
      · refine (copyRange_emits hepoll _ _ _ _ _ _).mono fun result o' h => ?_
        obtain ⟨body, hemits, -⟩ := h
        exact ⟨fun h => absurd h hblock, fun _ _ _ =>
          ⟨buf ++ body, List.append_ne_nil_of_left_ne_nil hblock body, h₁.1.trans hemits⟩⟩
      · exact ⟨fun h => absurd h hblock, fun _ _ _ => ⟨buf, hblock, h₁.1⟩⟩

theorem copyRanges_nothing (hepoll : EpollSucceeds w) (path content : Bytes) (ranges : List Range)
    (o : Output) :
    After (copyRanges w path content ranges) o fun result o' => ∀ done, result = .ok done →
      ∃ body, Emits body o o' ∧ (body = [] ↔ NothingToCopy w o.log path content ranges) := by
  induction ranges generalizing o with
  | nil => exact fun _ _ => ⟨[], Emits.refl o, iff_of_true rfl trivial⟩
  | cons range ranges ih =>
      rw [copyRanges, after_bind, after_get, NothingToCopy]
      by_cases hstart : range.start < 0
      · rw [if_pos (by simp [hstart])]
        exact fun _ _ => ⟨[], Emits.refl o, iff_of_true rfl (Or.inl hstart)⟩
      rw [or_iff_right hstart]
      by_cases hseek : w.seek o.log path = false
      · rw [if_pos (by simp [hseek])]
        exact fun _ _ => ⟨[], Emits.refl o, iff_of_true rfl (Or.inl hseek)⟩
      rw [or_iff_right hseek, if_neg (by simp [hstart, hseek])]
      by_cases hlength : range.length = 0
      · rw [after_bind, copyRange, if_pos hlength, after_pure, and_iff_right hlength,
          or_iff_left fun h => h.1 hlength]
        exact ih o
      rw [or_iff_right fun h => hlength h.1, and_iff_right hlength]
      refine (copyRange_first hepoll _ _ _ _ hlength o).bind fun result o₁ h₁ => ?_
      by_cases hnone : NoBlock w o.log path content range.start.toNat range.length
      · obtain ⟨rfl, rfl⟩ := h₁.1 hnone
        exact fun _ _ => ⟨[], Emits.refl _, iff_of_true rfl hnone⟩
      · rcases result with f | _ | _
        · exact fun _ hfault => by cases hfault
        · obtain ⟨body, hbody, hemits⟩ := h₁.2 hnone false rfl
          exact fun _ _ => ⟨body, hemits, iff_of_false hbody hnone⟩
        · obtain ⟨body, hbody, hemits⟩ := h₁.2 hnone true rfl
          refine (copyRanges_emits hepoll _ _ _ o₁).mono fun _ o' h _ _ => ?_
          obtain ⟨rest, hrest⟩ := h
          exact ⟨body ++ rest, hemits.trans hrest,
            iff_of_false (List.append_ne_nil_of_left_ne_nil hbody rest) hnone⟩

theorem sendFile_adds (hepoll : EpollSucceeds w) (path : Bytes) (file : File) (ranges : List Range) :
    After (sendFile w path file ranges) o fun result o' => ∀ done, result = .ok done →
      ∃ log log' body, Emits (renderLines (fileLines w path file ranges (w.now log) (w.now log'))
        ++ crlf ++ body) o o' ∧
        (body = [] ↔ NothingToCopy w (copyStart w path file ranges o).log path file.content
          (sentRanges ranges file.size)) := by
  refine sendFile_rule hepoll path file ranges (fun o' hfails _ _ => ?_) fun log log' h₁ => ?_
  · by_cases hnothing : NothingToCopy w (copyStart w path file ranges o).log path file.content
      (sentRanges ranges file.size)
    · exact ⟨[], [], [], hfails.emits _, iff_of_true rfl hnothing⟩
    · exact ⟨[], [], [0], hfails.emits _, iff_of_false (List.cons_ne_nil _ _) hnothing⟩
  · refine (copyRanges_nothing hepoll path file.content _ _).mono fun result o' h done hdone => ?_
    obtain ⟨body, hemits, hnothing⟩ := h done hdone
    exact ⟨log, log', body, h₁.trans hemits, hnothing⟩

end Output

/-! ### Answers without a body -/

/-- Lines that differ in the date they give only. -/
def SameButDate (line line' : Bytes) : Prop :=
  line = line' ∨ ∃ name ∈ [ascii "Date: ", ascii "Expires: "], name <+: line ∧ name <+: line'

namespace Answer

def Bodiless (w : World) (o : Output) : Answer → Prop
  | .document _ content => content = []
  | .header _ _ => True
  | .staticFile path file ranges =>
      Output.NothingToCopy w (Output.copyStart w path file ranges o).log path file.content
        (Output.sentRanges ranges file.size)
  | .page _ _ => False

theorem body_eq_nil_iff {a : Answer} {body : Bytes} (hbody : a.body w = some body) :
    body = [] ↔ a.Bodiless w o := by
  cases a with
  | document type content =>
      injection hbody with hbody
      rw [← hbody]
      rfl
  | header type size =>
      injection hbody with hbody
      exact iff_of_true hbody.symm trivial
  | staticFile path file ranges => cases hbody
  | page code text =>
      injection hbody with hbody
      rw [← hbody]
      exact iff_of_false (List.append_ne_nil_of_right_ne_nil _ Output.crlf_ne_nil) id

/-- An answer that is sent without fault has its header lines, and a body unless it is bodiless. -/
theorem send_bodiless (hepoll : Output.EpollSucceeds w) (a : Answer) :
    After (a.send w) o fun result o' => ∀ done, result = .ok done → ∃ log log' body, Connection.Adds
      (renderLines (a.lines w (w.now log) (w.now log')) ++ crlf ++ body) o o' ∧
        (body = [] ↔ a.Bodiless w o) := by
  cases hbody : a.body w with
  | some body =>
      refine (send_adds hbody).mono fun result o' h _ _ => ?_
      obtain ⟨-, log, log', hadds⟩ := h
      exact ⟨log, log', body, hadds, body_eq_nil_iff hbody⟩
  | none =>
      cases a with
      | staticFile path file ranges =>
          refine (Output.sendFile_adds hepoll path file ranges).mono fun result o' h done hdone => ?_
          obtain ⟨log, log', body, hemits, hnothing⟩ := h done hdone
          exact ⟨log, log', body, Connection.adds_of_emits hemits List.prefix_rfl rfl, hnothing⟩
      | document | header | page => cases hbody

theorem lines_sameButDate (w : World) (a : Answer) (date expires date' expires' : Bytes) :
    List.Forall₂ SameButDate (a.lines w date expires) (a.lines w date' expires') := by
  have same : ∀ lines : List Bytes, List.Forall₂ SameButDate lines lines := fun lines =>
    List.forall₂_same.mpr fun line _ => Or.inl rfl
  have common : ∀ code (lines : List Bytes), List.Forall₂ SameButDate
      (Output.commonLines w code date ++ lines) (Output.commonLines w code date' ++ lines) := by
    intro code lines
    refine .cons (Or.inl rfl) (.cons (Or.inl rfl) (.cons (Or.inr ?_) (same _)))
    exact ⟨ascii "Date: ", List.mem_cons_self, List.prefix_append _ _, List.prefix_append _ _⟩
  cases a with
  | document type content => exact common _ _
  | header type size => exact common _ _
  | page code body => exact common _ _
  | staticFile path file ranges =>
      have hranges : List.Forall₂ SameButDate (Output.rangeLines w ranges file.size date)
          (Output.rangeLines w ranges file.size date') := by
        rw [Output.rangeLines, Output.rangeLines]
        split_ifs with hwhole
        · exact common _ _
        · exact common _ _
      have hcache : List.Forall₂ SameButDate (Output.cacheLines path expires)
          (Output.cacheLines path expires') := by
        rw [Output.cacheLines, Output.cacheLines]
        split_ifs with hcache
        · refine .cons (Or.inl rfl) (.cons (Or.inl rfl) (.cons (Or.inr ?_) (same [])))
          exact ⟨ascii "Expires: ", List.mem_cons_of_mem _ List.mem_cons_self,
            List.prefix_append _ _, List.prefix_append _ _⟩
        · exact same []
      exact List.rel_append (List.rel_append hranges (same _)) hcache

end Answer

/-! ### Targets -/

/-- What HEAD and GET ask for alike: with a header block that has been read, or once the body of the
request has been read. -/
inductive Target where
  | block (requestUri : Bytes) (headers : HeaderMap)
  | body (request : PageRequest)

namespace Target

/-- The request for it. -/
def asked (verb : Verb) : Target → PageRequest
  | .block requestUri headers => PageRequest.create requestUri verb headers
  | .body request => { request with verb := verb }

def routine (w : World) (verb : Verb) : Target → ConnM Bool
  | .block requestUri headers => Connection.processRequest w verb requestUri headers
  | .body request => do
      modify fun c => { c with request := some { request with verb := verb } }
      Connection.handlePageRequest w

def answer (w : World) (c : Connection) (verb : Verb) : Target → Option Answer
  | .block requestUri headers => Answer.request w c verb requestUri headers
  | .body request =>
      Answer.pageRequest w { c with request := some { request with verb := verb } }
        { request with verb := verb }

/-- It is found among the embedded documents before the verb no longer matters. -/
def Embedded (w : World) : Target → Prop
  | .block requestUri _ => w.embeddedContent requestUri ≠ none
  | .body _ => False

/-- No page handler takes the request with one verb or the other, and the same files are there. -/
structure SameFiles (w : World) (c : Connection) (t : Target) : Prop where
  head : w.handle c.calls (t.asked .head) = .unhandled
  get : w.handle c.calls (t.asked .get) = .unhandled
  file : ∀ path, w.openFile (c.calls ++ [⟨.handle (t.asked .head), c.out⟩]) path =
    w.openFile (c.calls ++ [⟨.handle (t.asked .get), c.out⟩]) path

theorem answer_gives {t : Target} {verb : Verb} {a : Answer}
    (hstate : c.state ≠ .handlingHixieWebSocket) (hverb : verb ≠ .webSocket)
    (h : t.answer w c verb = some a) : Answer.Gives w (t.routine w verb) c a := by
  cases t with
  | block requestUri headers => exact Answer.gives_processRequest hstate hverb h
  | body request =>
      have hgives := Answer.gives_handlePageRequest (w := w)
        (c := { c with request := some { request with verb := verb } }) hstate rfl hverb h
      unfold Answer.Gives at hgives ⊢
      rw [routine, ends_bind, ends_modify]
      exact hgives

theorem answer_plain (hfiles : Answer.PlainFiles w) {t : Target} {verb : Verb} {a : Answer}
    (h : t.answer w c verb = some a) : a.Plain := by
  cases t with
  | block requestUri headers => exact Answer.request_plain hfiles h
  | body request => exact Answer.pageRequest_plain hfiles h

/-- The answer of `sendStaticData` depends on the URI, the range and the files. -/
theorem staticData_congr {c c' : Connection} (huri : c.getRequestUri = c'.getRequestUri)
    (hrange : c.getHeader (ascii "Range") = c'.getHeader (ascii "Range")) (hout : c.out = c'.out)
    (hfile : ∀ path, w.openFile c.calls path = w.openFile c'.calls path) :
    Answer.staticData w c = Answer.staticData w c' := by
  simp only [Answer.staticData, Answer.missing, huri, hrange, hout, hfile]

theorem request_of_not_embedded (verb : Verb) {requestUri : Bytes} (headers : HeaderMap)
    (hnone : w.embeddedContent requestUri = none) :
    Answer.request w c verb requestUri headers =
      if w.clientBufferSize < PageRequest.uintOf headers (ascii "Content-Length") then
        some (.page .badRequest (ascii "Content length too long"))
      else if PageRequest.uintOf headers (ascii "Content-Length") = 0 then
        Answer.pageRequest w { c with request := some (PageRequest.create requestUri verb headers) }
          (PageRequest.create requestUri verb headers)
      else none := by
  unfold Answer.request
  dsimp only
  rw [hnone]
  cases verb <;> rfl

/-- Only an embedded document is answered differently. -/
theorem answer_eq {t : Target} (hembedded : ¬ t.Embedded w) (hsame : t.SameFiles w c) :
    t.answer w c .head = t.answer w c .get := by
  have page : Answer.pageRequest w { c with request := some (t.asked .head) } (t.asked .head) =
      Answer.pageRequest w { c with request := some (t.asked .get) } (t.asked .get) := by
    unfold Answer.pageRequest
    dsimp only
    rw [hsame.head, hsame.get]
    apply staticData_congr
    · cases t <;> rfl
    · cases t <;> rfl
    · rfl
    · exact hsame.file
  cases t with
  | body request => exact page
  | block requestUri headers =>
      have hnone : w.embeddedContent requestUri = none := by
        by_contra hsome
        exact hembedded hsome
      have hhead : answer w c .head (block requestUri headers) = _ :=
        request_of_not_embedded .head headers hnone
      have hget : answer w c .get (block requestUri headers) = _ :=
        request_of_not_embedded .get headers hnone
      rw [hhead, hget]
      split_ifs
      · rfl
      · exact page
      · rfl

end Target

/-! ### HEAD and GET -/

/-- What was sent for HEAD ends with the blank line, behind the lines sent for GET but for the dates. -/
def HeadAgrees (o head get : Output) : Prop :=
  ∃ lines lines' body, HeaderLines lines ∧ HeaderLines lines' ∧
    List.Forall₂ SameButDate lines lines' ∧
    Output.emitted head = Output.emitted o ++ (renderLines lines ++ crlf) ∧
    Output.emitted get = Output.emitted o ++ (renderLines lines' ++ crlf ++ body)

theorem headAgrees_iff {lines lines' : List Bytes} {body body' : Bytes} {head get : Output}
    (hlines : HeaderLines lines) (hlines' : HeaderLines lines')
    (hsame : List.Forall₂ SameButDate lines lines')
    (hhead : Output.emitted head = Output.emitted o ++ (renderLines lines ++ crlf ++ body))
    (hget : Output.emitted get = Output.emitted o ++ (renderLines lines' ++ crlf ++ body')) :
    HeadAgrees o head get ↔ body = [] := by
  constructor
  · rintro ⟨lines'', -, -, hlines'', -, -, hhead', -⟩
    rw [hhead] at hhead'
    have hbytes := List.append_cancel_left hhead'
    rw [← List.append_nil (renderLines lines'' ++ crlf)] at hbytes
    exact (renderLines_inj hlines hlines'' hbytes).2
  · intro hbody
    rw [hbody, List.append_nil] at hhead
    exact ⟨lines, lines', body', hlines, hlines', hsame, hhead, hget⟩

theorem Answer.Gives.emits {m : ConnM Bool} {a : Answer} (hgives : Answer.Gives w m c a)
    (hopen : c.closing = false) (hnoError : c.out.hadSendError = false)
    (hepoll : Output.EpollSucceeds w) {result : Bool} {c' : Connection}
    (hrun : m.run c = .ok result c') (hquiet : Connection.NoFailure c c') :
    ∃ log log' body, Output.emitted c'.out = Output.emitted c.out ++
        (renderLines (a.lines w (w.now log) (w.now log')) ++ crlf ++ body) ∧
      (body = [] ↔ a.Bodiless w c.out) := by
  have hsent := hgives
  rw [Answer.Gives, ends_of_run_ok hrun] at hsent
  have hadds := (Answer.send_bodiless (o := c.out) hepoll a).run
  rw [hsent] at hadds
  obtain ⟨log, log', body, ⟨events, hlog, hemitted⟩, hbody⟩ := hadds result rfl
  dsimp only at hlog hemitted
  rw [Connection.NoFailure, hlog, List.drop_left] at hquiet
  exact ⟨log, log', body, hemitted hopen hnoError hquiet, hbody⟩

/-- **HEAD and GET.** From the same open connection, with no failure in either case, the response to HEAD
has the header lines of the response to GET but for the dates, and nothing behind the blank line, exactly
if the target is an embedded document or GET gets an empty body. -/
theorem headAgrees_iff_bodiless {t : Target} {a : Answer} (hanswer : t.answer w c .get = some a)
    (hsame : ¬ t.Embedded w → t.SameFiles w c) (hstate : c.state ≠ .handlingHixieWebSocket)
    (hopen : c.closing = false) (hnoError : c.out.hadSendError = false) (htexts : PlainTexts w)
    (hplain : Answer.PlainFiles w) (hepoll : Output.EpollSucceeds w)
    {result result' : Bool} {head get : Connection} (hhead : (t.routine w .head).run c = .ok result head)
    (hget : (t.routine w .get).run c = .ok result' get) (hquiet : Connection.NoFailure c head)
    (hquiet' : Connection.NoFailure c get) :
    HeadAgrees c.out head.out get.out ↔ t.Embedded w ∨ a.Bodiless w c.out := by
  have compare : ∀ {a' : Answer}, t.answer w c .head = some a' →
      (∀ date expires date' expires', List.Forall₂ SameButDate (a'.lines w date expires)
        (a.lines w date' expires')) → (HeadAgrees c.out head.out get.out ↔ a'.Bodiless w c.out) := by
    intro a' hanswer' hlines
    have hgives := Target.answer_gives hstate (by decide) hanswer'
    obtain ⟨log, log', body, hemitted, hbody⟩ :=
      hgives.emits hopen hnoError hepoll hhead hquiet
    have hgives' := Target.answer_gives hstate (by decide) hanswer
    obtain ⟨log₁, log₁', body', hemitted', -⟩ :=
      hgives'.emits hopen hnoError hepoll hget hquiet'
    rw [← hbody]
    exact headAgrees_iff
      (Answer.lines_headerLines htexts (Target.answer_plain hplain hanswer') log log')
      (Answer.lines_headerLines htexts (Target.answer_plain hplain hanswer) log₁ log₁')
      (hlines _ _ _ _) hemitted hemitted'
  by_cases hembedded : t.Embedded w
  · cases t with
    | body request => exact hembedded.elim
    | block requestUri headers =>
        obtain ⟨embedded, hsome⟩ := Option.ne_none_iff_exists'.mp hembedded
        have hdocument : (Target.block requestUri headers).answer w c .get =
            some (.document (getContentType requestUri) embedded) := by
          change Answer.request w c .get requestUri headers = _
          unfold Answer.request
          dsimp only
          rw [hsome]
        have hheader : (Target.block requestUri headers).answer w c .head =
            some (.header (getContentType requestUri) embedded.length) := by
          change Answer.request w c .head requestUri headers = _
          unfold Answer.request
          dsimp only
          rw [hsome]
        obtain rfl : a = .document (getContentType requestUri) embedded :=
          Option.some.inj (hanswer.symm.trans hdocument)
        rw [compare hheader (Answer.lines_sameButDate w (.document _ embedded))]
        exact iff_of_true trivial (Or.inl hembedded)
  · have hsameAnswer := (Target.answer_eq hembedded (hsame hembedded)).trans hanswer
    rw [compare hsameAnswer (Answer.lines_sameButDate w a)]
    exact (or_iff_right hembedded).symm

/-- HEAD and GET for a small file. -/
theorem headAgrees_iff_bodiless_file :
    ∃ result head result' get,
      ((Target.block (ascii "/") HeaderMap.empty).routine World.files .head).run Connection.fresh =
        .ok result head ∧
      ((Target.block (ascii "/") HeaderMap.empty).routine World.files .get).run Connection.fresh =
        .ok result' get ∧
      (HeadAgrees Connection.fresh.out head.out get.out ↔
        (Target.block (ascii "/") HeaderMap.empty).Embedded World.files ∨
          (Answer.staticFile (ascii "/index.html") ⟨4, ascii "text", []⟩ []).Bodiless World.files
            Connection.fresh.out) := by
  have hanswer : (Target.block (ascii "/") HeaderMap.empty).answer World.files Connection.fresh .get =
      some (.staticFile (ascii "/index.html") ⟨4, ascii "text", []⟩ []) := by
    decide +kernel
  have hsame : (Target.block (ascii "/") HeaderMap.empty).SameFiles World.files Connection.fresh :=
    ⟨rfl, rfl, fun _ => rfl⟩
  have hstate : Connection.fresh.state ≠ .handlingHixieWebSocket := by decide
  have htexts : PlainTexts World.files :=
    ⟨⟨List.not_mem_nil, List.not_mem_nil⟩, fun _ => ⟨List.not_mem_nil, List.not_mem_nil⟩⟩
  have hplain : Answer.PlainFiles World.files := by
    intro calls path file hfile
    injection hfile with hfile
    rw [← hfile]
    exact List.not_mem_nil
  obtain ⟨result, head, hhead, hquiet⟩ := Connection.exists_run_of_quiet (c := Connection.fresh)
    (m := (Target.block (ascii "/") HeaderMap.empty).routine World.files .head) (by decide +kernel)
  obtain ⟨result', get, hget, hquiet'⟩ := Connection.exists_run_of_quiet (c := Connection.fresh)
    (m := (Target.block (ascii "/") HeaderMap.empty).routine World.files .get) (by decide +kernel)
  refine ⟨result, head, result', get, hhead, hget, ?_⟩
  exact headAgrees_iff_bodiless hanswer (fun _ => hsame) hstate rfl rfl htexts hplain (fun _ _ => rfl)
    hhead hget hquiet hquiet'

/-- A small file, which comes with HEAD too. -/
theorem not_headAgrees_of_file :
    ∃ head get, Connection.run World.files
        [.readable (.data ⟨ascii "HEAD / HTTP/1.1\r\n\r\n", by decide⟩)] Connection.fresh = .ok head ∧
      Connection.run World.files
        [.readable (.data ⟨ascii "GET / HTTP/1.1\r\n\r\n", by decide⟩)] Connection.fresh = .ok get ∧
      Connection.NoFailure Connection.fresh head ∧ Connection.NoFailure Connection.fresh get ∧
      ¬ HeadAgrees Connection.fresh.out head.out get.out := by
  have hrun : (do
      let head ← Connection.run World.files
        [.readable (.data ⟨ascii "HEAD / HTTP/1.1\r\n\r\n", by decide⟩)] Connection.fresh
      let get ← Connection.run World.files
        [.readable (.data ⟨ascii "GET / HTTP/1.1\r\n\r\n", by decide⟩)] Connection.fresh
      return decide ((∀ event ∈ head.out.log.drop 0, Output.isFailure event = false) ∧
        (∀ event ∈ get.out.log.drop 0, Output.isFailure event = false) ∧
        Output.emitted head.out = Output.emitted get.out ∧
        Output.emitted get.out = renderLines (Output.fileLines World.files (ascii "/index.html")
          ⟨4, ascii "text", []⟩ [] [] []) ++ crlf ++ ascii "text")) =
      (.ok true : Except Fault Bool) := by
    decide +kernel
  obtain ⟨head, hhead, hrun⟩ := ok_of_bind_eq_ok hrun
  obtain ⟨get, hget, hrun⟩ := ok_of_bind_eq_ok hrun
  injection hrun with hrun
  obtain ⟨hquiet, hquiet', hemitted, hemitted'⟩ := of_decide_eq_true hrun
  have htexts : PlainTexts World.files :=
    ⟨⟨List.not_mem_nil, List.not_mem_nil⟩, fun _ => ⟨List.not_mem_nil, List.not_mem_nil⟩⟩
  have hlines : HeaderLines (Output.fileLines World.files (ascii "/index.html")
      ⟨4, ascii "text", []⟩ [] [] []) :=
    Answer.lines_headerLines htexts (a := .staticFile (ascii "/index.html") ⟨4, ascii "text", []⟩ [])
      List.not_mem_nil [] []
  refine ⟨head, get, hhead, hget, hquiet, hquiet', fun hagrees => ?_⟩
  have hbody := (headAgrees_iff (o := Connection.fresh.out) hlines hlines
    (List.forall₂_same.mpr fun line _ => Or.inl rfl) (hemitted.trans hemitted') hemitted').mp hagrees
  exact absurd hbody (by decide)

end Seasocks
