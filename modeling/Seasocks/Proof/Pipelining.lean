import Seasocks.Proof.HeaderBlocks
import Seasocks.Proof.Inflating
import Seasocks.Proof.Pages
import Seasocks.Proof.Recutting

/-!
# Pipelined requests

A client may send requests without waiting for the responses. Whatever the reads are and whenever the
responses finish, what has been handled is the first of the requests, and the input buffer and what is
still to come are the others. A complete request waits in the buffer behind a body whose response is
finished at once, and behind a response that finishes later: nothing takes it up before the next read.
-/

namespace Seasocks

open Program

/-! ### Requests -/

/-- The length of the body a header block announces. -/
def Announces (headers : HeaderMap) (n : Nat) : Prop :=
  match headers.find (ascii "Content-Length") with
  | none => n = 0
  | some value => Digits value ∧ digitsValue value = n

/-- A request as a client sends it: a header block that can be read, without its blank line, and a body
of the announced length. -/
structure HttpRequest where
  head : Bytes
  verb : Verb
  requestUri : Bytes
  headers : HeaderMap
  body : Bytes
  parsed : ∃ memory, RequestParser.block.run head = .ok (verb, requestUri, headers) memory
  blank : find (crlf ++ crlf) (head ++ crlf) = some (head.length - 2)
  short : (head ++ crlf).length ≤ maxHeadersSize
  ordinary : Connection.isUpgrade headers = false
  announced : Announces headers body.length
  small : body.length < 2 ^ 31

namespace HttpRequest

def text (r : HttpRequest) : Bytes := r.head ++ crlf ++ r.body

/-- What `processHeaders` makes of the header block. -/
def created (r : HttpRequest) : PageRequest := PageRequest.create r.requestUri r.verb r.headers

/-- What a page handler is to be given. -/
def pageRequest (r : HttpRequest) : PageRequest := { r.created with content := r.body }

theorem contentLength (r : HttpRequest) : r.created.contentLength = r.body.length := by
  have hannounced := r.announced
  have hsmall := r.small
  unfold Announces at hannounced
  rw [created, PageRequest.create, PageRequest.uintOf]
  dsimp only
  cases hfind : r.headers.find (ascii "Content-Length") with
  | none =>
      rw [hfind] at hannounced
      exact hannounced.symm
  | some value =>
      rw [hfind] at hannounced
      obtain ⟨hdigits, hvalue⟩ := hannounced
      dsimp only
      rw [stoi_digits hdigits, hvalue, if_pos hsmall]
      dsimp only
      omega

theorem two_le_length (r : HttpRequest) : 2 ≤ r.head.length := by
  have hlength := length_of_find r.blank (by decide)
  have hcrlf : crlf.length = 2 := rfl
  simp only [List.length_append, hcrlf] at hlength
  omega

theorem find_text (r : HttpRequest) (s : Bytes) :
    find (crlf ++ crlf) (r.head ++ crlf ++ s) = some (r.head.length - 2) := find_append r.blank s

/-- The first blank line ends the header block. -/
theorem block_of_find (r : HttpRequest) {buffer coming s : Bytes} {i : Nat}
    (hbuffer : buffer ++ coming = r.head ++ crlf ++ s) (hfind : find (crlf ++ crlf) buffer = some i) :
    i + 2 = r.head.length ∧ ∃ left, buffer = r.head ++ crlf ++ left ∧ left ++ coming = s := by
  have hwhole := find_append hfind coming
  rw [hbuffer, r.find_text, Option.some_inj] at hwhole
  have htwo := r.two_le_length
  have hlength := length_of_find hfind (by decide)
  have hboth : (crlf ++ crlf).length = 4 := rfl
  have hcrlf : crlf.length = 2 := rfl
  have hblock : (r.head ++ crlf).length ≤ buffer.length := by
    rw [List.length_append]
    omega
  obtain ⟨left, rfl⟩ := List.prefix_of_prefix_length_le
    ⟨s, hbuffer.symm⟩ (List.prefix_append buffer coming) hblock
  rw [List.append_assoc _ left, List.append_cancel_left_eq] at hbuffer
  exact ⟨by omega, left, rfl, hbuffer⟩

/-- Without a blank line the header block is not complete. -/
theorem length_lt_of_find (r : HttpRequest) {buffer coming s : Bytes}
    (hbuffer : buffer ++ coming = r.head ++ crlf ++ s) (hfind : find (crlf ++ crlf) buffer = none) :
    buffer.length < (r.head ++ crlf).length := by
  by_contra hlong
  obtain ⟨left, rfl⟩ := List.prefix_of_prefix_length_le
    ⟨s, hbuffer.symm⟩ (List.prefix_append buffer coming) (Nat.le_of_not_lt hlong)
  rw [r.find_text] at hfind
  cases hfind

end HttpRequest

theorem find_blockLines {verbText requestUri : Bytes} {fields : List (Bytes × Bytes)}
    (hverb : Verb.ofText verbText ≠ .invalid) (huri : RequestParser.Word requestUri)
    (hfields : ∀ field ∈ fields, PlainField field) :
    find (crlf ++ crlf) (renderLines (blockLines verbText requestUri fields) ++ crlf) =
      some ((renderLines (blockLines verbText requestUri fields)).length - 2) := by
  refine find_blank (List.cons_ne_nil _ _) ?_ []
  intro line hline
  rcases List.mem_cons.mp hline with rfl | hline
  · exact ⟨by simp, (RequestParser.word_of_ofText hverb).cr_not_mem_line huri⟩
  · obtain ⟨field, hfield, rfl⟩ := List.mem_map.mp hline
    exact ⟨by simp [fieldLine], (hfields field hfield).cr_not_mem⟩

/-- A request line with some fields below it. -/
def HttpRequest.ofFields (verbText requestUri : Bytes) (fields : List (Bytes × Bytes)) (body : Bytes)
    (hverb : Verb.ofText verbText ≠ .invalid) (huri : RequestParser.Word requestUri)
    (hfields : ∀ field ∈ fields, PlainField field)
    (hshort : (renderLines (blockLines verbText requestUri fields) ++ crlf).length ≤ maxHeadersSize)
    (hordinary : Connection.isUpgrade (headersOf HeaderMap.empty fields) = false)
    (hannounced : Announces (headersOf HeaderMap.empty fields) body.length)
    (hsmall : body.length < 2 ^ 31) : HttpRequest where
  head := renderLines (blockLines verbText requestUri fields)
  verb := Verb.ofText verbText
  requestUri := requestUri
  headers := headersOf HeaderMap.empty fields
  body := body
  parsed := RequestParser.blockLines_run hverb huri hfields
  blank := find_blockLines hverb huri hfields
  short := hshort
  ordinary := hordinary
  announced := hannounced
  small := hsmall

/-- What a client sends on a connection. -/
def pipeline (rs : List HttpRequest) : Bytes := rs.flatMap HttpRequest.text

theorem pipeline_cons (r : HttpRequest) (rs : List HttpRequest) :
    pipeline (r :: rs) = r.head ++ crlf ++ (r.body ++ pipeline rs) := by
  rw [pipeline, List.flatMap_cons, HttpRequest.text, List.append_assoc _ r.body]
  rfl

/-- A whole request is there. -/
def Complete (buffer : Bytes) : Prop := ∃ r : HttpRequest, r.text <+: buffer

theorem not_complete_of_find {buffer : Bytes} (hfind : find (crlf ++ crlf) buffer = none) :
    ¬ Complete buffer := by
  rintro ⟨r, hprefix⟩
  obtain ⟨rest, rfl⟩ := hprefix
  rw [HttpRequest.text, List.append_assoc, r.find_text] at hfind
  cases hfind

theorem complete_pipeline (r : HttpRequest) (rs : List HttpRequest) : Complete (pipeline (r :: rs)) :=
  ⟨r, List.prefix_append _ _⟩

/-- The requests that are for the page handlers, which answer them and keep the connection open. -/
structure Accepts (w : World) (r : HttpRequest) : Prop where
  plain : w.embeddedContent r.requestUri = none
  fits : r.body.length ≤ w.clientBufferSize
  answered : ∀ calls, ∃ response, w.handle calls r.pageRequest = .response response ∧ response.KeepsOpen

def Call.handled : Call → Option PageRequest
  | .handle request => some request
  | _ => none

namespace Connection

variable {w : World} {c : Connection} {rs rest : List HttpRequest} {coming : Bytes}

/-- What the page handlers have been given. -/
def handled (calls : List Entry) : List PageRequest := calls.filterMap fun entry => entry.call.handled

theorem handled_concat (calls : List Entry) (call : Call) (out : Output) :
    handled (calls ++ [⟨call, out⟩]) = handled calls ++ call.handled.toList := by
  rw [handled, handled, List.filterMap_append]
  cases hcall : call.handled with
  | none => simp [hcall]
  | some request => simp [hcall]

/-! ### A header block -/

/-- The header block of `r` has been read, and `left` is behind it. -/
structure Begins (r : HttpRequest) (left : Bytes) (c c' : Connection) : Prop where
  inBuf : c'.inBuf.drop (r.head.length + 2) = left
  alive : c'.alive = c.alive
  writer : c'.writer = c.writer
  quiet : Output.Quiet c.out c'.out
  pending : Pending c'
  outcome : r.body = [] ∧ (c'.state = .readingHeaders ∨ Responding c') ∧
      handled c'.calls = handled c.calls ++ [r.pageRequest] ∨
    r.body ≠ [] ∧ c'.state = .bufferingPostData ∧ c'.request = some r.created ∧
      handled c'.calls = handled c.calls

theorem processHeaders_begins {r : HttpRequest} {left : Bytes} (haccepts : Accepts w r)
    (hinBuf : c.inBuf = r.head ++ crlf ++ left) (hresponse : c.response = none) :
    Ends (processHeaders w r.head.length) c (fun accepted c' => accepted = true ∧ Begins r left c c')
      fun _ _ => False := by
  obtain ⟨memory, hparsed⟩ := r.parsed
  have htake : c.inBuf.take r.head.length = r.head := by
    rw [hinBuf, List.append_assoc, List.take_left]
  have hparse : RequestParser.block.run (c.inBuf.take r.head.length) =
      .ok (r.verb, r.requestUri, r.headers) memory := by
    rw [htake]
    exact hparsed
  have hlength : memory.length = r.head.length :=
    (ends_of_run_ok hparsed).mp (RequestParser.block_length r.head)
  have hleft : (memory ++ c.inBuf.drop r.head.length).drop (r.head.length + 2) = left := by
    have hcrlf : crlf.length = 2 := rfl
    rw [hinBuf, List.append_assoc, List.drop_left, ← hlength, List.drop_length_add_append, ← hcrlf,
      List.drop_left]
  have hnot : ¬ IsEmbedded w r.verb r.requestUri := fun hembedded => hembedded.2 haccepts.plain
  rw [ends_of_run_eq (processHeaders_of_parse hparse), processParsed, r.ordinary,
    if_neg Bool.false_ne_true, ends_of_run_eq (processRequest_of_not_embedded hnot)]
  generalize hbegun : ({ c with
    inBuf := memory ++ c.inBuf.drop r.head.length
    request := some (PageRequest.create r.requestUri r.verb r.headers) } : Connection) = c₁
  have hrequest : c₁.request = some r.created := by
    rw [← hbegun]
    rfl
  change Ends (if w.clientBufferSize < r.created.contentLength then _ else
    if r.created.contentLength = 0 then _ else _) c₁ _ _
  rw [r.contentLength, if_neg (Nat.not_lt.mpr haccepts.fits)]
  by_cases hbody : r.body = []
  · obtain ⟨response, hhandle, hkeeps⟩ := haccepts.answered c₁.calls
    have hsame : r.created = r.pageRequest := by
      rw [HttpRequest.pageRequest, hbody]
      rfl
    rw [hsame] at hrequest
    rw [if_pos (List.length_eq_zero_iff.mpr hbody)]
    refine (handlePageRequest_answered hrequest ?_ hhandle hkeeps).mono ?_ fun _ _ => id
    · rw [← hbegun]
      exact hresponse
    rintro accepted c' ⟨rfl, hanswered⟩
    have hwrote := hanswered.wrote
    subst hbegun
    refine ⟨rfl, ?_, hwrote.alive, hwrote.writer, hwrote.quiet, hanswered.pending,
      Or.inl ⟨hbody, ?_, ?_⟩⟩
    · rw [hwrote.inBuf]
      exact hleft
    · by_cases hfinishes : response.Finishes
      · exact Or.inl (hanswered.state.trans hfinishes)
      · exact Or.inr (hanswered.responding hfinishes)
    · rw [hwrote.calls]
      exact handled_concat _ _ _
  · rw [if_neg (mt List.length_eq_zero_iff.mp hbody), setState, ends_bind, ends_modify]
    have hnone : c₁.response = none := by
      rw [← hbegun]
      exact hresponse
    have hbuffering : ({ c₁ with state := .bufferingPostData } : Connection).state = .bufferingPostData := rfl
    have hpending : Pending { c₁ with state := .bufferingPostData } :=
      pending_of_none hnone (not_responding hbuffering (by decide))
    refine ⟨rfl, ?_, ?_, ?_, ?_, hpending, Or.inr ⟨hbody, rfl, hrequest, ?_⟩⟩
    · rw [← hbegun]
      exact hleft
    · rw [← hbegun]
    · rw [← hbegun]
    · rw [← hbegun]
      exact Output.Quiet.refl _
    · rw [← hbegun]

/-! ### The requests not yet handled -/

/-- The buffer and what is still to come are the requests that have not been handled, the first of them
without its header block while its body is awaited. -/
def Awaits (rest : List HttpRequest) (coming : Bytes) (c : Connection) : Prop :=
  (c.state = .readingHeaders ∨ Responding c) ∧ c.inBuf ++ coming = pipeline rest ∨
  c.state = .bufferingPostData ∧ ∃ r behind, rest = r :: behind ∧ r.body ≠ [] ∧
    c.request = some r.created ∧ c.inBuf ++ coming = r.body ++ pipeline behind

/-- The first of the requests have been handled, each with its body, and the others are awaited. -/
structure Queued (rs : List HttpRequest) (coming : Bytes) (c : Connection) : Prop where
  alive : c.alive = true
  writer : c.writer = true
  pending : Pending c
  progress : ∃ done rest, rs = done ++ rest ∧ handled c.calls = done.map HttpRequest.pageRequest ∧
    Awaits rest coming c

/-- A complete request is in the buffer, and nothing but a read will take it up. -/
def Waiting (c : Connection) : Prop :=
  c.state = .readingHeaders ∧ Complete c.inBuf ∨
  c.state = .bufferingPostData ∧ ∃ request, c.request = some request ∧
    request.contentLength ≤ c.inBuf.length

/-- Behind a body whose response finishes at once there is no complete request. -/
def BodyHandsOver (w : World) (c : Connection) : Prop :=
  c.state = .bufferingPostData → ∀ request request' left response, c.request = some request →
    request.consumeContent c.inBuf = some (request', left) →
    w.handle (c.calls ++ [⟨.content request'.content, c.out⟩]) request' = .response response →
    response.Finishes → ¬ Complete left

theorem Awaits.reading (h : Awaits rest coming c) (hstate : c.state = .readingHeaders) :
    c.inBuf ++ coming = pipeline rest := by
  rcases h with ⟨-, hinBuf⟩ | ⟨hbuffering, -⟩
  · exact hinBuf
  · rw [hstate] at hbuffering
    cases hbuffering

theorem Awaits.buffering (h : Awaits rest coming c) (hstate : c.state = .bufferingPostData) :
    ∃ r behind, rest = r :: behind ∧ r.body ≠ [] ∧ c.request = some r.created ∧
      c.inBuf ++ coming = r.body ++ pipeline behind := by
  rcases h with ⟨hreading | hresponding, -⟩ | ⟨-, h⟩
  · rw [hstate] at hreading
    cases hreading
  · exact absurd hresponding (not_responding hstate (by decide))
  · exact h

theorem Pending.response_eq_none (h : Pending c) (hnot : ¬ Responding c) : c.response = none := by
  rw [← Option.not_isSome_iff_eq_none]
  exact mt h.mp hnot

theorem waiting_iff_of_reading (hstate : c.state = .readingHeaders) : Waiting c ↔ Complete c.inBuf := by
  constructor
  · rintro (⟨-, hcomplete⟩ | ⟨hbuffering, -⟩)
    · exact hcomplete
    · rw [hstate] at hbuffering
      cases hbuffering
  · exact fun hcomplete => Or.inl ⟨hstate, hcomplete⟩

theorem not_waiting_of_responding (h : Responding c) : ¬ Waiting c := by
  rintro (⟨hreading, -⟩ | ⟨hbuffering, -⟩)
  · exact not_responding hreading (by decide) h
  · exact not_responding hbuffering (by decide) h

theorem bodyHandsOver_iff {request request' : PageRequest} {left : Bytes} {response : Response}
    (hstate : c.state = .bufferingPostData) (hrequest : c.request = some request)
    (hconsume : request.consumeContent c.inBuf = some (request', left))
    (hhandle : w.handle (c.calls ++ [⟨.content request'.content, c.out⟩]) request' =
      .response response) :
    BodyHandsOver w c ↔ (response.Finishes → ¬ Complete left) := by
  constructor
  · exact fun h => h hstate request request' left response hrequest hconsume hhandle
  · intro h _ request₁ request₂ left₁ response₁ hrequest₁ hconsume₁ hhandle₁
    rw [hrequest, Option.some_inj] at hrequest₁
    rw [← hrequest₁, hconsume, Option.some_inj, Prod.mk.injEq] at hconsume₁
    obtain ⟨rfl, rfl⟩ := hconsume₁
    rw [hhandle] at hhandle₁
    injection hhandle₁ with hresponse
    rwa [← hresponse]

/-! ### A turn -/

/-- A turn takes a complete header block, or leaves everything as it is. -/
theorem handleHeaders_queued (haccepts : ∀ r ∈ rs, Accepts w r) (h : Queued rs coming c)
    (hstate : c.state = .readingHeaders) :
    Ends (handleHeaders w) c (fun goOn c' => Queued rs coming c' ∧ Output.Quiet c.out c'.out ∧
      (goOn = true → c'.inBuf.length < c.inBuf.length) ∧
      (goOn = false → c' = c ∧ ¬ Waiting c)) fun _ _ => False := by
  obtain ⟨done, rest, hrs, hhandled, hawaits⟩ := h.progress
  have hinBuf := hawaits.reading hstate
  rw [handleHeaders, ends_bind, ends_get]
  cases hfind : find (crlf ++ crlf) c.inBuf with
  | none =>
      have hshort : ¬ maxHeadersSize < c.inBuf.length := by
        cases rest with
        | nil =>
            rw [(List.append_eq_nil_iff.mp hinBuf).1]
            exact Nat.not_lt_zero _
        | cons r behind =>
            rw [pipeline_cons] at hinBuf
            have hless := r.length_lt_of_find hinBuf hfind
            have hblock := r.short
            omega
      dsimp only
      rw [if_neg hshort]
      refine ⟨h, Output.Quiet.refl _, fun hgoOn => ?_, fun _ => ⟨rfl, ?_⟩⟩
      · cases hgoOn
      · rw [waiting_iff_of_reading hstate]
        exact not_complete_of_find hfind
  | some i =>
      cases rest with
      | nil =>
          rw [(List.append_eq_nil_iff.mp hinBuf).1] at hfind
          cases hfind
      | cons r behind =>
          rw [pipeline_cons] at hinBuf
          obtain ⟨hi, left, hleft, hcoming⟩ := r.block_of_find hinBuf hfind
          have hr : r ∈ rs := hrs ▸ List.mem_append_right _ List.mem_cons_self
          have hresponse := h.pending.response_eq_none (not_responding hstate (by decide))
          dsimp only
          rw [record, ends_bind, ends_modify, ends_bind, hi]
          have hbegun := processHeaders_begins (haccepts r hr)
            (c := { c with calls := c.calls ++ [⟨.headers (c.inBuf.take (i + 4)), c.out⟩] })
            hleft hresponse
          refine hbegun.mono ?_ fun _ _ => id
          rintro accepted c' ⟨rfl, hbegins⟩
          have htaken : handled (c.calls ++ [⟨.headers (c.inBuf.take (i + 4)), c.out⟩]) =
              handled c.calls := by
            rw [handled_concat]
            exact List.append_nil _
          have hdrop : c'.inBuf.drop (i + 4) = left := by
            rw [← hbegins.inBuf, ← hi]
          rw [if_pos rfl, ends_bind, ends_modify, ends_pure]
          refine ⟨⟨hbegins.alive.trans h.alive, hbegins.writer.trans h.writer, hbegins.pending, ?_⟩,
            hbegins.quiet, fun _ => ?_, fun hgoOn => absurd hgoOn (by decide)⟩
          · rcases hbegins.outcome with ⟨hbody, hnext, hcalls⟩ | ⟨hbody, hnext, hrequest, hcalls⟩
            · refine ⟨done ++ [r], behind, ?_, ?_, Or.inl ⟨hnext, ?_⟩⟩
              · rw [hrs, List.append_assoc]
                rfl
              · rw [List.map_append, ← hhandled, ← htaken]
                exact hcalls
              · dsimp only
                rw [hdrop, hcoming, hbody, List.nil_append]
            · refine ⟨done, r :: behind, hrs, ?_, Or.inr ⟨hnext, r, behind, rfl, hbody, hrequest, ?_⟩⟩
              · rw [← hhandled, ← htaken]
                exact hcalls
              · dsimp only
                rw [hdrop, hcoming]
          · dsimp only
            rw [hdrop, hleft, List.length_append, List.length_append]
            have htwo := r.two_le_length
            omega

/-- A complete body is handed to the page handlers with its request. -/
theorem handleBufferingPostData_queued (haccepts : ∀ r ∈ rs, Accepts w r) (h : Queued rs coming c)
    (hstate : c.state = .bufferingPostData) :
    Ends (handleBufferingPostData w) c (fun _ c' => Queued rs coming c' ∧ Output.Quiet c.out c'.out ∧
      (¬ Waiting c' ↔ BodyHandsOver w c)) fun _ _ => False := by
  obtain ⟨done, rest, hrs, hhandled, hawaits⟩ := h.progress
  obtain ⟨r, behind, rfl, hbody, hrequest, hinBuf⟩ := hawaits.buffering hstate
  rw [handleBufferingPostData, ends_bind, ends_get, ends_bind, theRequest, ends_bind, ends_get, hrequest,
    ends_pure]
  by_cases hshort : c.inBuf.length < r.body.length
  · have hnone : r.created.consumeContent c.inBuf = none := by
      rw [PageRequest.consumeContent, if_pos]
      rw [r.contentLength]
      exact hshort
    rw [hnone]
    refine ⟨h, Output.Quiet.refl _, iff_of_true ?_ ?_⟩
    · rintro (⟨hreading, -⟩ | ⟨-, request, hsome, hle⟩)
      · rw [hstate] at hreading
        cases hreading
      · rw [hrequest, Option.some_inj] at hsome
        rw [← hsome, r.contentLength] at hle
        omega
    · intro _ request request' left response hsome hconsume
      rw [hrequest, Option.some_inj] at hsome
      rw [← hsome, hnone] at hconsume
      cases hconsume
  · obtain ⟨left, hleft⟩ := List.prefix_of_prefix_length_le ⟨_, hinBuf.symm⟩
      (List.prefix_append c.inBuf coming) (Nat.le_of_not_lt hshort)
    have hconsume : r.created.consumeContent c.inBuf = some (r.pageRequest, left) := by
      have htake : c.inBuf.take r.created.contentLength = r.body := by
        rw [r.contentLength, ← hleft, List.take_left]
      have hdrop : c.inBuf.drop r.created.contentLength = left := by
        rw [r.contentLength, ← hleft, List.drop_left]
      rw [PageRequest.consumeContent_of_le rfl, htake, hdrop]
      · rfl
      · rw [r.contentLength]
        exact Nat.le_of_not_lt hshort
    have hcoming : left ++ coming = pipeline behind := by
      rw [← hleft, List.append_assoc, List.append_cancel_left_eq] at hinBuf
      exact hinBuf
    have hr : r ∈ rs := hrs ▸ List.mem_append_right _ List.mem_cons_self
    obtain ⟨response, hhandle, hkeeps⟩ :=
      (haccepts r hr).answered (c.calls ++ [⟨.content r.pageRequest.content, c.out⟩])
    have hresponse := h.pending.response_eq_none (not_responding hstate (by decide))
    rw [bodyHandsOver_iff hstate hrequest hconsume hhandle, hconsume]
    dsimp only
    rw [record, ends_bind, ends_modify, ends_bind, ends_modify, ends_bind]
    generalize htaken : ({ c with
      state := .readingHeaders
      request := some r.pageRequest
      inBuf := left
      calls := c.calls ++ [⟨.content r.pageRequest.content, c.out⟩] } : Connection) = c₁
    have hrequest₁ : c₁.request = some r.pageRequest := by
      rw [← htaken]
    have hresponse₁ : c₁.response = none := by
      rw [← htaken]
      exact hresponse
    have hcalls₁ : c₁.calls = c.calls ++ [⟨.content r.pageRequest.content, c.out⟩] := by
      rw [← htaken]
    rw [← hcalls₁] at hhandle
    refine (handlePageRequest_answered hrequest₁ hresponse₁ hhandle hkeeps).mono ?_ fun _ _ => id
    rintro accepted c' ⟨rfl, hanswered⟩
    have hwrote := hanswered.wrote
    subst htaken
    refine ⟨⟨hwrote.alive.trans h.alive, hwrote.writer.trans h.writer, hanswered.pending,
      done ++ [r], behind, ?_, ?_, Or.inl ⟨?_, ?_⟩⟩, hwrote.quiet, ?_⟩
    · rw [hrs, List.append_assoc]
      rfl
    · rw [hwrote.calls, handled_concat, handled_concat, hhandled, List.map_append, List.append_assoc]
      rfl
    · by_cases hfinishes : response.Finishes
      · exact Or.inl (hanswered.state.trans hfinishes)
      · exact Or.inr (hanswered.responding hfinishes)
    · rw [hwrote.inBuf]
      exact hcoming
    · by_cases hfinishes : response.Finishes
      · rw [waiting_iff_of_reading (hanswered.state.trans hfinishes), hwrote.inBuf]
        exact ⟨fun h _ => h, fun h => h hfinishes⟩
      · exact iff_of_true (not_waiting_of_responding (hanswered.responding hfinishes))
          fun hagain => absurd hagain hfinishes

/-- The turns of `handleNewData` take what is complete. -/
theorem handleNewDataFrom_queued (haccepts : ∀ r ∈ rs, Accepts w r) {fuel : Nat} (h : Queued rs coming c)
    (hfuel : c.inBuf.length < fuel) :
    Ends (handleNewDataFrom w fuel) c (fun _ c' => Queued rs coming c' ∧ Output.Quiet c.out c'.out ∧
      (¬ Waiting c' ↔ ∀ c₁, Turns w c c₁ → BodyHandsOver w c₁)) fun _ _ => False := by
  induction fuel generalizing c with
  | zero => exact absurd hfuel (Nat.not_lt_zero _)
  | succ fuel ih =>
      rw [handleNewDataFrom, ends_bind, ends_get]
      have only : c.state ≠ .readingHeaders → ∀ c₁, Turns w c c₁ → c₁ = c := by
        rintro hstate c₁ hturns
        cases hturns with
        | first => rfl
        | next hreading => exact absurd hreading hstate
      obtain ⟨done, rest, hrs, hhandled, hawaits⟩ := id h.progress
      rcases hawaits with ⟨hstate | hresponding, -⟩ | ⟨hstate, -⟩
      · have hplain : BodyHandsOver w c := by
          intro hbuffering
          rw [hstate] at hbuffering
          cases hbuffering
        rw [hstate]
        dsimp only
        rw [ends_bind]
        refine ((handleHeaders_queued haccepts h hstate).and (ends_run _ _)).mono ?_ fun _ _ => And.left
        rintro goOn c₁ ⟨⟨hqueued, hquiet, hless, hsame⟩, hrun⟩
        cases goOn with
        | true =>
            rw [if_pos rfl]
            have hfuel₁ : c₁.inBuf.length < fuel := by
              have hle := hless rfl
              omega
            refine (ih hqueued hfuel₁).mono ?_ fun _ _ => id
            rintro - c' ⟨hqueued', hquiet', hiff⟩
            refine ⟨hqueued', hquiet.trans hquiet', hiff.trans ?_⟩
            constructor
            · intro hall c₂ hturns
              cases hturns with
              | first => exact hplain
              | next _ hagain hturns =>
                  rw [hrun] at hagain
                  injection hagain with _ hagain
                  exact hall c₂ (hagain ▸ hturns)
            · exact fun hall c₂ hturns => hall c₂ (Turns.next hstate hrun hturns)
        | false =>
            obtain ⟨rfl, hnot⟩ := hsame rfl
            rw [if_neg Bool.false_ne_true]
            refine ⟨h, hquiet, iff_of_true hnot fun c₂ hturns => ?_⟩
            cases hturns with
            | first => exact hplain
            | next _ hagain =>
                rw [hrun] at hagain
                cases hagain
      · have hplain : BodyHandsOver w c := fun hbuffering =>
          absurd hresponding (not_responding hbuffering (by decide))
        have hdone : Ends (pure () : ConnM Unit) c (fun _ c' => Queued rs coming c' ∧
            Output.Quiet c.out c'.out ∧ (¬ Waiting c' ↔ ∀ c₁, Turns w c c₁ → BodyHandsOver w c₁))
            fun _ _ => False := by
          refine ⟨h, Output.Quiet.refl _, iff_of_true (not_waiting_of_responding hresponding) ?_⟩
          intro c₁ hturns
          rw [only (fun hreading => not_responding hreading (by decide) hresponding) c₁ hturns]
          exact hplain
        rcases hresponding with hstate | hstate | hstate
        · rw [hstate]
          exact hdone
        · rw [hstate]
          exact hdone
        · rw [hstate]
          exact hdone
      · rw [hstate]
        refine (handleBufferingPostData_queued haccepts h hstate).mono ?_ fun _ _ => id
        rintro - c' ⟨hqueued, hquiet, hiff⟩
        refine ⟨hqueued, hquiet, hiff.trans ?_⟩
        constructor
        · intro hbody c₁ hturns
          rw [only (by rw [hstate]; decide) c₁ hturns]
          exact hbody
        · exact fun hall => hall c (Turns.first c)

/-! ### Events -/

/-- What a client that sends requests and responses that keep the connection open make happen. -/
def Routine : Event → Prop
  | .readable (.data _) | .writable => True
  | .writer call => call.KeepsOpen
  | .readable _ | .socket _ | .destroy => False

/-- No complete request is left behind: not behind a body whose response finishes at once, and not behind
a response that finishes now. -/
def HandsOver (w : World) : Event → Connection → Prop
  | .readable (.data received), c => ∀ c', Turns w (afterRead c received.val) c' → BodyHandsOver w c'
  | .writer (.finish _), c => Sending c → ¬ Complete c.inBuf
  | _, _ => True

theorem Wrote.queued {c' : Connection} (h : Wrote c c') (hqueued : Queued rs coming c)
    (hpending : Pending c')
    (hstate : c'.state = c.state ∨
      Responding c ∧ (c'.state = .readingHeaders ∨ Responding c')) : Queued rs coming c' := by
  obtain ⟨done, rest, hrs, hhandled, hawaits⟩ := hqueued.progress
  refine ⟨h.alive.trans hqueued.alive, h.writer.trans hqueued.writer, hpending, done, rest, hrs, ?_, ?_⟩
  · rw [h.calls]
    exact hhandled
  rw [Awaits, h.inBuf, h.request]
  rcases hstate with hstate | ⟨hresponding, hstate⟩
  · rw [Awaits] at hawaits
    rw [Responding, Sending, hstate]
    exact hawaits
  · rcases hawaits with ⟨-, hinBuf⟩ | ⟨hbuffering, -⟩
    · exact Or.inl ⟨hstate, hinBuf⟩
    · exact absurd hresponding (not_responding hbuffering (by decide))

theorem Wrote.waiting_iff {c' : Connection} (h : Wrote c c') (hstate : c'.state = c.state) :
    Waiting c' ↔ Waiting c := by
  rw [Waiting, Waiting, hstate, h.inBuf, h.request]

/-- A response goes on until it is finished. -/
theorem Legal.next_cases {state : State} {call : WriterCall} (h : Legal state call)
    (hkeeps : call.KeepsOpen) :
    (∃ keepConnectionOpen, call = .finish keepConnectionOpen) ∧ call.next state = .readingHeaders ∨
      (call.next state = .sendingResponseHeaders ∨ call.next state = .sendingResponseBody) ∧
        ∀ c, HandsOver w (.writer call) c := by
  cases call with
  | begin | header =>
      refine Or.inr ⟨Or.inl ?_, fun _ => trivial⟩
      rw [show state = _ from h]
      rfl
  | payload =>
      refine Or.inr ⟨Or.inr ?_, fun _ => trivial⟩
      rcases h with rfl | rfl
      · rfl
      · rfl
  | finish keepConnectionOpen =>
      refine Or.inl ⟨⟨keepConnectionOpen, rfl⟩, ?_⟩
      rcases h with rfl | rfl
      · rfl
      · rfl
  | error => exact hkeeps.elim

theorem Legal.responding {call : WriterCall} (h : Legal c.state call) : Responding c := by
  cases call with
  | begin | error => exact Or.inl h
  | header => exact Or.inr (Or.inl h)
  | payload | finish => exact Or.inr h

/-- A use of the writer leaves the requests alone. -/
theorem writerCall_queued {call : WriterCall} (hkeeps : call.KeepsOpen) (h : Queued rs coming c) :
    Ends (writerCall w call) c (fun _ c' => Queued rs coming c' ∧ Output.Quiet c.out c'.out ∧
      (¬ Waiting c → (¬ Waiting c' ↔ HandsOver w (.writer call) c))) fun _ _ => False := by
  refine (writerCall_uses hkeeps h.pending).mono ?_ fun _ _ => id
  rintro - c' ⟨hwrote, hstate, hpending⟩
  by_cases hlegal : Legal c.state call
  · rcases hlegal.next_cases (w := w) hkeeps with ⟨⟨keepConnectionOpen, rfl⟩, hnext⟩ | ⟨hnext, hhands⟩
    · have hreading := hstate.trans hnext
      refine ⟨hwrote.queued h hpending (Or.inr ⟨hlegal.responding, Or.inl hreading⟩), hwrote.quiet,
        fun _ => ?_⟩
      rw [waiting_iff_of_reading hreading, hwrote.inBuf]
      exact ⟨fun hcomplete _ => hcomplete, fun hhands => hhands hlegal⟩
    · rw [← hstate] at hnext
      have hresponding : Responding c' := Or.inr hnext
      exact ⟨hwrote.queued h hpending (Or.inr ⟨hlegal.responding, Or.inr hresponding⟩), hwrote.quiet,
        fun _ => iff_of_true (not_waiting_of_responding hresponding) (hhands c)⟩
  · have hsame : c'.state = c.state := hstate.trans (next_of_illegal hlegal)
    refine ⟨hwrote.queued h hpending (Or.inl hsame), hwrote.quiet, fun hnot => ?_⟩
    rw [hwrote.waiting_iff hsame]
    refine iff_of_true hnot ?_
    cases call with
    | finish keepConnectionOpen => exact fun hsending => absurd hsending hlegal
    | begin | header | payload | error => trivial

/-- What one event comes to. -/
theorem step_queued (haccepts : ∀ r ∈ rs, Accepts w r) {event : Event} (hroutine : Routine event)
    (h : Queued rs (event.received ++ coming) c) (hopen : c.closing = false) :
    Ends (step w event) c (fun _ c' => Queued rs coming c' ∧ Output.Quiet c.out c'.out ∧
      (¬ Waiting c → (¬ Waiting c' ↔ HandsOver w event c))) fun _ _ => False := by
  rw [step, ends_bind, ends_get]
  cases event with
  | readable result =>
      cases result with
      | error | endOfStream => exact hroutine.elim
      | data received =>
          have hread : Queued rs coming (afterRead c received.val) := by
            obtain ⟨done, rest, hrs, hhandled, hawaits⟩ := h.progress
            refine ⟨h.alive, h.writer, h.pending, done, rest, hrs, hhandled, ?_⟩
            rw [Awaits, afterRead]
            dsimp only
            rw [List.append_assoc]
            exact hawaits
          dsimp only
          rw [if_pos h.alive, handleDataReadyForRead, ends_bind, ends_get, closed_of_closing hopen,
            if_pos (by rfl)]
          dsimp only
          rw [ends_bind, ends_set, handleNewData, ends_bind, ends_get]
          refine (handleNewDataFrom_queued haccepts hread (Nat.lt_succ_self _)).mono ?_ fun _ _ => id
          rintro - c' ⟨hqueued, hquiet, hiff⟩
          exact ⟨hqueued, hquiet, fun _ => hiff⟩
  | writable =>
      dsimp only
      rw [if_pos h.alive, ends_liftOut]
      apply Output.handleDataReadyForWrite_quiet.mono
      intro _ out hquiet
      have hwrote : Wrote c { c with out := out } := ⟨rfl, rfl, rfl, rfl, rfl, hquiet⟩
      refine ⟨hwrote.queued h h.pending (Or.inl rfl), hquiet, fun hnot => iff_of_true ?_ trivial⟩
      rw [hwrote.waiting_iff rfl]
      exact hnot
  | writer call =>
      dsimp only
      rw [if_pos h.writer, if_pos h.alive]
      exact writerCall_queued hroutine h
  | socket | destroy => exact hroutine.elim

/-! ### Runs -/

/-- Routine events take the requests in order, and go on. -/
theorem run_queued (haccepts : ∀ r ∈ rs, Accepts w r) {events : List Event}
    (hroutine : ∀ event ∈ events, Routine event) (hquiet : UntroubledRun w events c)
    (h : Queued rs (received events ++ coming) c) (hopen : c.closing = false) :
    ∃ c', run w events c = .ok c' ∧ Queued rs coming c' := by
  induction events generalizing c with
  | nil => exact ⟨c, rfl, h⟩
  | cons event events ih =>
      rw [List.forall_mem_cons] at hroutine
      rw [received_cons, List.append_assoc] at h
      obtain ⟨_, c₁, hstep, hqueued, hkeeps, -⟩ := (step_queued haccepts hroutine.1 h hopen).returns
      have hopen₁ := closing_of_quiet hkeeps hopen (hquiet.step hstep)
      obtain ⟨c', hrun, hqueued'⟩ := ih hroutine.2 (hquiet.tail hstep) hqueued hopen₁
      exact ⟨c', (run_cons_ok hstep).trans hrun, hqueued'⟩

/-- No state of a run leaves a complete request behind. -/
def NeverWaits (w : World) (events : List Event) (c : Connection) : Prop :=
  ∀ before after c', events = before ++ after → run w before c = .ok c' → ¬ Waiting c'

theorem neverWaits_cons_iff {event : Event} {events : List Event} {c₁ : Connection} (hnot : ¬ Waiting c)
    (hstep : (step w event).run c = .ok () c₁) :
    NeverWaits w (event :: events) c ↔ NeverWaits w events c₁ := by
  constructor
  · intro h before after c' hsplit hrun
    refine h (event :: before) after c' ?_ ?_
    · rw [hsplit, List.cons_append]
    · rwa [run_cons_ok hstep]
  · intro h before after c' hsplit hrun
    cases before with
    | nil =>
        injection hrun with hrun
        rwa [← hrun]
    | cons first before =>
        rw [List.cons_append, List.cons.injEq] at hsplit
        obtain ⟨rfl, hsplit⟩ := hsplit
        rw [run_cons_ok hstep] at hrun
        exact h before after c' hsplit hrun

/-- Complete requests are left behind exactly by the events that do not hand over. -/
theorem run_neverWaits_iff (haccepts : ∀ r ∈ rs, Accepts w r) {events : List Event}
    (hroutine : ∀ event ∈ events, Routine event) (hquiet : UntroubledRun w events c)
    (h : Queued rs (received events) c) (hopen : c.closing = false) (hnot : ¬ Waiting c) :
    NeverWaits w events c ↔ Throughout w (HandsOver w) events c := by
  induction events generalizing c with
  | nil =>
      refine iff_of_true ?_ ?_
      · intro before after c' hsplit hrun
        rw [(List.append_eq_nil_iff.mp hsplit.symm).1] at hrun
        injection hrun with hrun
        rwa [← hrun]
      · intro before event after c' hsplit
        exact absurd hsplit.symm (by simp)
  | cons event events ih =>
      rw [List.forall_mem_cons] at hroutine
      rw [received_cons] at h
      obtain ⟨_, c₁, hstep, hqueued, hkeeps, hiff⟩ := (step_queued haccepts hroutine.1 h hopen).returns
      have hopen₁ := closing_of_quiet hkeeps hopen (hquiet.step hstep)
      rw [neverWaits_cons_iff hnot hstep, throughout_cons_iff hstep, ← hiff hnot]
      by_cases hnot₁ : Waiting c₁
      · refine iff_of_false (fun hnever => ?_) fun hboth => hboth.1 hnot₁
        exact hnever [] events c₁ rfl rfl hnot₁
      · rw [ih hroutine.2 (hquiet.tail hstep) hqueued hopen₁ hnot₁]
        exact ⟨fun hall => ⟨hnot₁, hall⟩, And.right⟩

/-- Once everything has been read and answered, what does not wait has been handled. -/
theorem Queued.finished (h : Queued rs [] c) (hnot : ¬ Waiting c) (hresponse : c.response = none) :
    handled c.calls = rs.map HttpRequest.pageRequest ∧ c.inBuf = [] := by
  obtain ⟨done, rest, rfl, hhandled, hawaits⟩ := h.progress
  rcases hawaits with ⟨hstate | hresponding, hinBuf⟩ | ⟨hstate, r, behind, rfl, -, hrequest, hinBuf⟩
  · rw [List.append_nil] at hinBuf
    cases rest with
    | nil =>
        rw [List.append_nil]
        exact ⟨hhandled, hinBuf⟩
    | cons r behind =>
        rw [waiting_iff_of_reading hstate, hinBuf] at hnot
        exact absurd (complete_pipeline r behind) hnot
  · have hsome := h.pending.mpr hresponding
    rw [hresponse] at hsome
    cases hsome
  · rw [List.append_nil] at hinBuf
    refine absurd (Or.inr ⟨hstate, r.created, hrequest, ?_⟩) hnot
    rw [r.contentLength, hinBuf, List.length_append]
    exact Nat.le_add_right _ _

theorem fresh_queued (rs : List HttpRequest) : Queued rs (pipeline rs) fresh :=
  ⟨rfl, rfl, pending_of_reading rfl rfl, [], rs, rfl, rfl, Or.inl ⟨Or.inl rfl, rfl⟩⟩

theorem not_waiting_fresh : ¬ Waiting fresh := by
  rw [waiting_iff_of_reading rfl]
  exact not_complete_of_find rfl

/-- In every state of the run the first of the requests have been handled, with their bodies, and no
complete request is left behind; once everything has been read and answered, all have been handled. -/
def InOrder (w : World) (rs : List HttpRequest) (events : List Event) : Prop :=
  ∀ before after, events = before ++ after → ∃ c, run w before fresh = .ok c ∧
    handled c.calls <+: rs.map HttpRequest.pageRequest ∧ ¬ Waiting c ∧
    (received after = [] → c.response = none →
      handled c.calls = rs.map HttpRequest.pageRequest ∧ c.inBuf = [])

/-- **Pipelined requests.** However the requests of a client are cut into reads, and whenever their
responses finish, they are handled in order and none is left behind exactly if no event leaves a complete
request behind a body whose response finishes at once, or behind a response that finishes later. -/
theorem run_inOrder_iff (haccepts : ∀ r ∈ rs, Accepts w r) {events : List Event}
    (hroutine : ∀ event ∈ events, Routine event) (hreceived : received events = pipeline rs)
    (hquiet : UntroubledRun w events fresh) :
    InOrder w rs events ↔ Throughout w (HandsOver w) events fresh := by
  have hfresh := fresh_queued rs
  rw [← hreceived] at hfresh
  rw [← run_neverWaits_iff haccepts hroutine hquiet hfresh rfl not_waiting_fresh]
  constructor
  · intro h before after c hsplit hrun
    obtain ⟨c', hrun', -, hnot, -⟩ := h before after hsplit
    rw [hrun] at hrun'
    injection hrun' with hsame
    rwa [hsame]
  · intro hnever before after hsplit
    have hbefore : before <+: events := ⟨after, hsplit.symm⟩
    rw [hsplit, received_append] at hfresh
    have hroutine' : ∀ event ∈ before, Routine event := fun event hevent =>
      hroutine event (hbefore.subset hevent)
    have hquiet' : UntroubledRun w before fresh := fun earlier hearlier =>
      hquiet earlier (hearlier.trans hbefore)
    obtain ⟨c, hrun, hqueued⟩ := run_queued haccepts hroutine' hquiet' hfresh rfl
    have hnot := hnever before after c hsplit hrun
    obtain ⟨done, rest, hrs, hhandled, -⟩ := id hqueued.progress
    refine ⟨c, hrun, ?_, hnot, fun hread hresponse => ?_⟩
    · rw [hhandled, hrs, List.map_append]
      exact List.prefix_append _ _
    · rw [hread] at hqueued
      exact hqueued.finished hnot hresponse

/-! ### Requests that are left behind -/

def getPage : HttpRequest :=
  .ofFields (ascii "GET") (ascii "/page") [] [] (by decide +kernel)
    ⟨by decide +kernel, by decide +kernel⟩ (List.forall_mem_nil _) (by decide +kernel) rfl rfl
    (by decide)

theorem plainField_contentLength : PlainField (ascii "Content-Length", ascii "4") :=
  ⟨by decide +kernel, by decide +kernel, by decide +kernel⟩

def postForm : HttpRequest :=
  .ofFields (ascii "POST") (ascii "/form") [(ascii "Content-Length", ascii "4")] (ascii "form")
    (by decide +kernel) ⟨by decide +kernel, by decide +kernel⟩
    (List.forall_mem_singleton.mpr plainField_contentLength) (by decide +kernel) (by decide +kernel)
    ⟨⟨by decide, by decide +kernel⟩, by decide +kernel⟩ (by decide)

theorem pages_accepts {response : Response} (hkeeps : response.KeepsOpen) {r : HttpRequest}
    (hfits : r.body.length ≤ World.plain.clientBufferSize) : Accepts (.pages response) r :=
  ⟨rfl, hfits, fun _ => ⟨response, rfl, hkeeps⟩⟩

/-- What is in the buffer behind a complete body is no complete request. -/
def bodyStandsAlone (c : Connection) : Bool :=
  match c.state, c.request with
  | .bufferingPostData, some request =>
      match request.consumeContent c.inBuf with
      | some (_, left) => find (crlf ++ crlf) left = none
      | none => true
  | _, _ => true

theorem bodyHandsOver_of_bodyStandsAlone (h : bodyStandsAlone c = true) : BodyHandsOver w c := by
  intro hstate request request' left response hrequest hconsume _ _
  rw [bodyStandsAlone, hstate, hrequest] at h
  dsimp only at h
  rw [hconsume] at h
  exact not_complete_of_find (of_decide_eq_true h)

/-- Nothing at all is complete where something could be left behind. -/
def standsAlone (w : World) : Event → Connection → Bool
  | .readable (.data received), c => everyTurn w bodyStandsAlone 3 (afterRead c received.val)
  | .writer (.finish _), c => find (crlf ++ crlf) c.inBuf = none
  | _, _ => true

theorem handsOver_of_standsAlone {event : Event} (h : standsAlone w event c = true) :
    HandsOver w event c := by
  match event with
  | .readable (.data received) =>
      exact fun c' hturns => bodyHandsOver_of_bodyStandsAlone (hturns.of_everyTurn h)
  | .writer (.finish _) => exact fun _ => not_complete_of_find (of_decide_eq_true h)
  | .readable .endOfStream | .readable .error | .writable | .socket _ | .destroy => trivial
  | .writer (.begin _ _) | .writer (.header _ _) | .writer (.payload _ _) | .writer (.error _ _) => trivial

/-- A server that answers a form later, and everything else at once. -/
def formLater : World :=
  { World.plain with
    handle := fun _ request =>
      .response ⟨.begin .ok .raw :: if request.verb = .post then [] else [.finish true]⟩ }

theorem formLater_accepts {r : HttpRequest} (hfits : r.body.length ≤ World.plain.clientBufferSize) :
    Accepts formLater r := by
  refine ⟨rfl, hfits, fun _ => ⟨_, rfl, ?_⟩⟩
  split <;> decide

/-- A page, a form and the page again, in three reads: the first ends inside the body of the form, the
second inside the last request, and the form is answered before the third. -/
def servedLater : List Event :=
  [.readable (.data ⟨ascii "GET /page HTTP/1.1\r\n\r\nPOST /form HTTP/1.1\r\nContent-Length: 4\r\n\r\nfo",
      by decide +kernel⟩),
    .readable (.data ⟨ascii "rmGET /pa", by decide⟩), .writer (.finish true),
    .readable (.data ⟨ascii "ge HTTP/1.1\r\n\r\n", by decide⟩)]

theorem run_inOrder_servedLater : InOrder formLater [getPage, postForm, getPage] servedLater := by
  have haccepts : ∀ r ∈ [getPage, postForm, getPage], Accepts formLater r := by
    simp only [List.forall_mem_cons]
    refine ⟨formLater_accepts (by decide), formLater_accepts (by decide), ?_⟩
    exact ⟨formLater_accepts (by decide), List.forall_mem_nil _⟩
  have hroutine : ∀ event ∈ servedLater, Routine event := by
    simp only [servedLater, List.forall_mem_cons]
    exact ⟨trivial, trivial, rfl, trivial, List.forall_mem_nil _⟩
  have halone : Throughout formLater (fun event c => standsAlone formLater event c = true) servedLater fresh :=
    throughout_of_everyEvent (by decide +kernel)
  refine (run_inOrder_iff haccepts hroutine (by decide +kernel) (by decide +kernel)).mpr ?_
  exact fun before event after c hsplit hrun =>
    handsOver_of_standsAlone (halone before event after c hsplit hrun)

theorem pipeline_size :
    pipeline [postForm, getPage] ≠ [] ∧ (pipeline [postForm, getPage]).length ≤ readWriteBufferSize := by
  decide +kernel

/-- A form that is answered at once, and a page that is asked for in the same read and never handled. -/
theorem not_handled_behind_body :
    ∃ c, run (.pages ⟨[.begin .ok .raw, .finish true]⟩)
        [.readable (.data ⟨pipeline [postForm, getPage], pipeline_size⟩)] fresh = .ok c ∧
      (∀ r ∈ [postForm, getPage], Accepts (.pages ⟨[.begin .ok .raw, .finish true]⟩) r) ∧
      UntroubledRun (.pages ⟨[.begin .ok .raw, .finish true]⟩)
        [.readable (.data ⟨pipeline [postForm, getPage], pipeline_size⟩)] fresh ∧
      c.response = none ∧ handled c.calls ≠ [postForm, getPage].map HttpRequest.pageRequest ∧
      c.inBuf = getPage.text := by
  have hrun : (do
      let c ← run (.pages ⟨[.begin .ok .raw, .finish true]⟩)
        [.readable (.data ⟨pipeline [postForm, getPage], pipeline_size⟩)] fresh
      return decide (c.response = none ∧
        handled c.calls ≠ [postForm, getPage].map HttpRequest.pageRequest ∧ c.inBuf = getPage.text))
      = (.ok true : Except Fault Bool) := by
    decide +kernel
  obtain ⟨c, hc, hrun⟩ := ok_of_bind_eq_ok hrun
  injection hrun with hrun
  refine ⟨c, hc, ?_, by decide +kernel, of_decide_eq_true hrun⟩
  intro r hr
  rw [List.mem_pair] at hr
  rcases hr with rfl | rfl
  · exact pages_accepts (by decide) (by decide)
  · exact pages_accepts (by decide) (by decide)

end Connection

end Seasocks
