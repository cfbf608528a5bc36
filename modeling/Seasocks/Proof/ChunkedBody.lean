import Seasocks.Library.ChunkedBody
import Seasocks.Proof.WriterProtocol

/-!
# Chunked bodies

A chunked response decodes to its payloads, until the count of chunks wraps around and the line end
behind a chunk is left out.
-/

namespace Seasocks.Connection

open Program Relation

variable {w : World} {c : Connection}

/-! ### The text of a body -/

/-- The payloads that make a chunk. -/
def chunks (data : List Bytes) : Nat := (data.filter (· ≠ [])).length

/-- What is emitted behind the blank line. -/
def chunkedBody (data : List Bytes) : Bytes := bodyText .chunked [] data ++ endText .chunked data

/-- The rest of a body from a chunk header on, but for the line end before it. -/
def chunkedRest (before : List Bytes) : List Bytes → Bytes
  | [] => ChunkedBody.sizeLine 0 ++ crlf
  | data :: rest =>
      if data = [] then
        chunkedRest (before ++ [data]) rest
      else
        ChunkedBody.sizeLine data.length ++ data ++
          ((if chunkCount (before ++ [data]) = 0 then [] else crlf) ++
            chunkedRest (before ++ [data]) rest)

theorem chunkHeader_eq (chunk : UInt32) (size : Nat) :
    chunkHeader chunk size = (if chunk = 0 then [] else crlf) ++ ChunkedBody.sizeLine size := by
  rw [chunkHeader, List.append_assoc]
  rfl

theorem chunkCount_eq_zero_iff (data : List Bytes) :
    chunkCount data = 0 ↔ chunks data % 2 ^ 32 = 0 := by
  rw [chunkCount, ← UInt32.toNat_inj, UInt32.toNat_ofNat']
  rfl

theorem chunks_append (data rest : List Bytes) : chunks (data ++ rest) = chunks data + chunks rest := by
  rw [chunks, List.filter_append, List.length_append]
  rfl

theorem chunks_cons (data : Bytes) (rest : List Bytes) :
    chunks (data :: rest) = chunks [data] + chunks rest := chunks_append [data] rest

theorem chunks_nil_singleton : chunks [[]] = 0 := rfl

theorem chunks_singleton {data : Bytes} (hdata : data ≠ []) : chunks [data] = 1 := by
  simp [chunks, hdata]

theorem bodyText_append_endText (before data : List Bytes) :
    bodyText .chunked before data ++ endText .chunked (before ++ data) =
      (if chunkCount before = 0 then [] else crlf) ++ chunkedRest before data := by
  induction data generalizing before with
  | nil =>
      rw [bodyText, List.nil_append, List.append_nil, endText, chunkHeader_eq, List.append_assoc]
      rfl
  | cons first data ih =>
      have hrest := ih (before ++ [first])
      rw [List.append_assoc] at hrest
      rw [bodyText, List.append_assoc]
      rw [List.singleton_append] at hrest
      rw [hrest, payloadText, chunkedRest]
      by_cases hfirst : first = []
      · have hcount : chunkCount (before ++ [first]) = chunkCount before := by
          rw [chunkCount_concat, if_pos hfirst]
        rw [if_pos hfirst, if_pos hfirst, List.nil_append, hcount]
      · rw [if_neg hfirst, if_neg hfirst, chunkHeader_eq]
        simp only [List.append_assoc]

theorem chunkedBody_eq (data : List Bytes) : chunkedBody data = chunkedRest [] data :=
  bodyText_append_endText [] data

/-! ### Decoding -/

/-- Without the line end, what follows a chunk begins with a digit. -/
theorem lineEnd_chunkedRest (before data : List Bytes) :
    ChunkedBody.lineEnd (chunkedRest before data) = none := by
  have digits : ∀ size rest, ChunkedBody.lineEnd (ChunkedBody.sizeLine size ++ rest) = none := by
    intro size rest
    rw [ChunkedBody.sizeLine, List.append_assoc]
    exact ChunkedBody.lineEnd_sizeText _ _
  induction data generalizing before with
  | nil => exact digits _ _
  | cons first data ih =>
      rw [chunkedRest]
      split_ifs
      · exact ih _
      · rw [List.append_assoc]
        exact digits _ _
      · rw [List.append_assoc]
        exact digits _ _

theorem chunks_le_length (before data : List Bytes) :
    chunks data ≤ (chunkedRest before data).length := by
  induction data generalizing before with
  | nil => exact Nat.zero_le _
  | cons first data ih =>
      rw [chunks_cons, chunkedRest]
      by_cases hfirst : first = []
      · rw [if_pos hfirst, hfirst, chunks_nil_singleton, Nat.zero_add]
        exact ih _
      · rw [if_neg hfirst, chunks_singleton hfirst]
        have hpos : 0 < first.length := List.length_pos_iff.mpr hfirst
        have hrest := ih (before ++ [first])
        simp only [List.length_append]
        omega

/-- Behind a chunk of data, the rest is read back exactly if the whole is. -/
theorem map_readChunks_iff {read : Option (Bytes × Bytes)} {first : Bytes} {data : List Bytes} :
    (read.map fun (content, left) => (first ++ content, left)) = some ((first :: data).flatten, []) ↔
      read = some (data.flatten, []) := by
  rw [Option.map_eq_some_iff]
  constructor
  · rintro ⟨⟨content, left⟩, hread, heq⟩
    obtain ⟨hcontent, hleft⟩ := Prod.mk.inj heq
    rw [List.flatten_cons, List.append_cancel_left_eq] at hcontent
    rw [hread, hcontent, hleft]
  · intro hread
    exact ⟨_, hread, rfl⟩

/-- The body can be read exactly if no chunk but the first counts as the first. -/
theorem readChunks_chunkedRest (before data : List Bytes) (fuel : Nat) (hfuel : chunks data < fuel) :
    ChunkedBody.readChunks fuel (chunkedRest before data) = some (data.flatten, []) ↔
      ∀ i, chunks before < i → i ≤ chunks before + chunks data → i % 2 ^ 32 ≠ 0 := by
  induction data generalizing before fuel with
  | nil =>
      cases fuel with
      | zero => exact absurd hfuel (Nat.not_lt_zero _)
      | succ fuel =>
          refine iff_of_true (ChunkedBody.readChunks_last fuel []) fun i hlow hhigh => ?_
          exact absurd (hlow.trans_le hhigh) (Nat.lt_irrefl _)
  | cons first data ih =>
      have hbefore := chunks_append before [first]
      rw [chunks_cons] at hfuel ⊢
      rw [chunkedRest]
      by_cases hfirst : first = []
      · rw [hfirst, chunks_nil_singleton, Nat.zero_add] at hfuel
        rw [hfirst, chunks_nil_singleton, Nat.add_zero] at hbefore
        have hrest := ih (before ++ [[]]) fuel hfuel
        rw [hbefore] at hrest
        rw [if_pos hfirst, hfirst, chunks_nil_singleton, Nat.zero_add]
        exact hrest
      · rw [chunks_singleton hfirst] at hfuel hbefore ⊢
        rw [if_neg hfirst]
        cases fuel with
        | zero => exact absurd hfuel (Nat.not_lt_zero _)
        | succ fuel =>
            rw [ChunkedBody.readChunks_data fuel _ hfirst]
            by_cases hwrapped : chunkCount (before ++ [first]) = 0
            · rw [if_pos hwrapped, List.nil_append, lineEnd_chunkedRest]
              rw [chunkCount_eq_zero_iff, hbefore] at hwrapped
              refine iff_of_false (by simp) fun hall => ?_
              exact hall (chunks before + 1) (by omega) (by omega) hwrapped
            · have hline : ChunkedBody.lineEnd (crlf ++ chunkedRest (before ++ [first]) data) =
                  some (chunkedRest (before ++ [first]) data) := rfl
              have hrest := ih (before ++ [first]) fuel (by omega)
              rw [hbefore] at hrest
              rw [chunkCount_eq_zero_iff, hbefore] at hwrapped
              rw [if_neg (by rwa [chunkCount_eq_zero_iff, hbefore]), hline, Option.bind_some,
                map_readChunks_iff, hrest]
              constructor
              · intro hall i hlow hhigh
                by_cases hi : i = chunks before + 1
                · rwa [hi]
                · exact hall i (by omega) (by omega)
              · intro hall i hlow hhigh
                exact hall i (by omega) (by omega)

/-- A chunked body is read back exactly if there are fewer than 2^32 chunks. -/
theorem decode_chunkedBody (data : List Bytes) :
    ChunkedBody.decode (chunkedBody data) = some (data.flatten, []) ↔ chunks data < 2 ^ 32 := by
  have hfuel := chunks_le_length [] data
  rw [chunkedBody_eq, ChunkedBody.decode, readChunks_chunkedRest _ _ _ (by omega)]
  have hzero : chunks [] = 0 := rfl
  rw [hzero]
  constructor
  · intro hall
    by_contra hmany
    exact hall (2 ^ 32) (by omega) (by omega) (Nat.mod_self _)
  · intro hfew i hlow hhigh
    rw [Nat.mod_eq_of_lt (by omega)]
    omega

/-! ### Responses -/

/-- **Chunked responses.** What a chunked response emits behind the blank line decodes to its payloads
with nothing left over, exactly if it has fewer than 2^32 chunks. -/
theorem run_chunked_iff {before events : List Event} {c₀ c' : Connection} {code : ResponseCode}
    {lines : List (Bytes × Bytes)} {data : List Bytes} (hrun : run w before fresh = .ok c₀)
    (hmoves : Moves w c₀ c) (halive : c.alive = true) (hactive : c.isActive = true)
    (hopen : c.closing = false) (hstate : c.state = .awaitingResponseBegin)
    (h : run w events c = .ok c') (hmeanwhile : Throughout w Meanwhile events c)
    (hquiet : NoFailure c c')
    (hdone : Progress.awaiting.after events = .done code .chunked lines data) :
    ∃ log body, Output.emitted c'.out =
        Output.emitted c.out ++ (headText w code .chunked (w.now log) lines ++ crlf) ++ body ∧
      (ChunkedBody.decode body = some (data.flatten, []) ↔ chunks data < 2 ^ 32) := by
  have hawaiting := written_awaiting hrun hmoves halive hopen hstate
  have hwritten := run_written h hawaiting halive hactive hmeanwhile (Or.inl (by rw [hdone]; rfl)) hquiet
  rw [hdone] at hwritten
  obtain ⟨log, hlog⟩ := hwritten.text
  refine ⟨log, chunkedBody data, ?_, decode_chunkedBody data⟩
  rw [hlog, Progress.text, chunkedBody]
  simp only [List.append_assoc]

/-- The events of a chunked response that is sent as it comes. -/
def chunkedResponse (data : List Bytes) : List Event :=
  .writer (.begin .ok .chunked) :: data.map (fun payload => .writer (.payload payload true)) ++
    [.writer (.finish true)]

theorem run_chunked_iff_empty :
    ∃ c c' : Connection,
      run (.pages ⟨[]⟩) [.readable (.data ⟨ascii "GET / HTTP/1.1\r\n\r\n", by decide⟩)] fresh = .ok c ∧
      run (.pages ⟨[]⟩) (chunkedResponse [ascii "one", [], ascii "two"]) c = .ok c' ∧
      ∃ log body, Output.emitted c'.out = Output.emitted c.out ++
          (headText (.pages ⟨[]⟩) .ok .chunked ((World.pages ⟨[]⟩).now log) [] ++ crlf) ++ body ∧
        (ChunkedBody.decode body = some ([ascii "one", [], ascii "two"].flatten, []) ↔
          chunks [ascii "one", [], ascii "two"] < 2 ^ 32) := by
  have hrun : (do
      let c ← run (.pages ⟨[]⟩)
        [.readable (.data ⟨ascii "GET / HTTP/1.1\r\n\r\n", by decide⟩)] fresh
      let c' ← run (.pages ⟨[]⟩) (chunkedResponse [ascii "one", [], ascii "two"]) c
      return decide (c.alive = true ∧ c.isActive = true ∧ c.closing = false ∧
        c.state = State.awaitingResponseBegin ∧
        ∀ event ∈ c'.out.log.drop c.out.log.length, Output.isFailure event = false)) = .ok true := by
    decide +kernel
  obtain ⟨c, hc, hrun⟩ := ok_of_bind_eq_ok hrun
  obtain ⟨c', hc', hrun⟩ := ok_of_bind_eq_ok hrun
  injection hrun with hrun
  obtain ⟨halive, hactive, hopen, hstate, hquiet⟩ := of_decide_eq_true hrun
  refine ⟨c, c', hc, hc', ?_⟩
  refine run_chunked_iff hc ReflTransGen.refl halive hactive hopen hstate hc' ?_ hquiet rfl
  refine throughout_of_forall fun event hmem c => ?_
  simp only [chunkedResponse, List.map_cons, List.map_nil, List.cons_append, List.nil_append,
    List.mem_cons, List.not_mem_nil, or_false] at hmem
  rcases hmem with rfl | rfl | rfl | rfl | rfl <;> trivial

/-! ### A response with too many chunks -/

/-- Open, with nothing failed so far and at most `size` bytes in the buffer. -/
structure Calm (size : Nat) (o : Output) : Prop where
  isOpen : o.closing = false
  noError : o.hadSendError = false
  unregistered : o.registeredForWriteEvents = false
  quiet : ∀ event ∈ o.log, Output.isFailure event = false
  bounded : o.outBuf.length ≤ size

theorem Calm.record {size : Nat} {o : Output} (h : Calm size o) {event : OutEvent}
    (hevent : Output.isFailure event = false) : Calm size { o with log := o.log ++ [event] } where
  isOpen := h.isOpen
  noError := h.noError
  unregistered := h.unregistered
  quiet := by
    intro event' hmem
    rcases List.mem_append.mp hmem with hmem | hmem
    · exact h.quiet event' hmem
    · rwa [List.mem_singleton.mp hmem]
  bounded := h.bounded

section Generous

variable {o : Output} {size : Nat}

theorem flush_calm (hsend : ∀ log data, w.send log data = .sent data.length) (h : Calm size o) :
    After (Output.flush w) o fun _ o' => Calm 0 o' := by
  have hopen := h.isOpen
  rw [Output.closing, Output.closed, Bool.or_eq_false_iff, Bool.or_eq_false_iff] at hopen
  have hclosed : (!o.fd || o.hadSendError || o.shutdown) = false := by
    rw [h.noError, hopen.1.1, hopen.1.2]
    rfl
  have hsent : Calm 0 { o with
      bytesSent := o.bytesSent + o.outBuf.length
      outBuf := []
      log := o.log ++ [.send o.outBuf (.sent o.outBuf.length)] } :=
    { h.record (show Output.isFailure (.send o.outBuf (.sent o.outBuf.length)) = false from rfl) with
      bounded := Nat.le_refl 0 }
  have hnever : ∀ {p : Prop}, (-1 : Int) = o.outBuf.length → p := fun heq => by omega
  simp only [Output.flush, Output.safeSend, Output.updateWriteEvents, Output.record, hsend, after_bind,
    after_get, after_ite, after_modify, after_pure, Nat.min_self]
  refine ⟨fun hempty => { h with bounded := by rw [hempty]; exact Nat.le_refl 0 }, fun _ => ?_⟩
  refine ⟨fun hrefused => absurd (hclosed.symm.trans hrefused) Bool.false_ne_true, fun _ => ?_⟩
  refine ⟨fun heq => hnever heq.symm, fun _ => ?_⟩
  simp only [Int.toNat_natCast, List.drop_length]
  refine ⟨fun hwaiting => absurd rfl hwaiting.1, fun _ => ⟨fun hregistered => ?_, fun _ => ?_⟩⟩
  · have hnot := h.unregistered
    rw [hregistered.2] at hnot
    cases hnot
  · refine ⟨fun _ => ⟨fun hclose => ?_, fun _ => hsent⟩, fun _ => hsent⟩
    rw [Bool.and_eq_true, hopen.2] at hclose
    cases hclose.2

theorem bufferAndFlush_calm (hsend : ∀ log data, w.send log data = .sent data.length) (data : Bytes)
    (flushIt : Bool) (hroom : size + data.length < w.clientBufferSize) (h : Calm size o) :
    After (Output.bufferAndFlush w data flushIt) o fun _ o' =>
      Calm (if flushIt then 0 else size + data.length) o' := by
  have hbounded := h.bounded
  have hbuffered : Calm (size + data.length) { o with outBuf := o.outBuf ++ data } :=
    { h with bounded := by rw [List.length_append]; omega }
  simp only [Output.bufferAndFlush, Output.record, after_bind, after_get, after_ite, after_modify,
    after_pure]
  refine ⟨fun hfull => by omega, fun _ => ⟨fun hflush => ?_, fun hlater => ?_⟩⟩
  · rw [if_pos hflush]
    exact flush_calm hsend hbuffered
  · rw [if_neg hlater]
    exact hbuffered

theorem write_calm (hsend : ∀ log data, w.send log data = .sent data.length) (data : Bytes)
    (flushIt : Bool) (hdata : data ≠ []) (hroom : size + data.length < w.clientBufferSize)
    (hbuffered : flushIt = true → o.outBuf ≠ []) (h : Calm size o) :
    After (Output.write w data flushIt) o fun _ o' =>
      Calm (if flushIt then 0 else size + data.length) o' := by
  simp only [Output.write, Output.record, after_bind, after_get, after_ite, after_modify, after_pure]
  refine ⟨fun hclosed => absurd (h.isOpen.symm.trans hclosed) Bool.false_ne_true, fun _ => ?_⟩
  refine ⟨fun hempty => absurd hempty hdata, fun _ => ⟨fun hdirect => ?_, fun _ => ?_⟩⟩
  · exact absurd hdirect.1 (hbuffered hdirect.2)
  · exact bufferAndFlush_calm hsend data flushIt hroom (h.record rfl)

end Generous

/-- In the middle of a chunked body, with nothing waiting. -/
structure Streaming (c : Connection) : Prop where
  alive : c.alive = true
  writer : c.writer = true
  state : c.state = .sendingResponseBody
  encoding : c.transferEncoding = .chunked
  calm : Calm 0 c.out

theorem writeChunkHeader_calm (hsend : ∀ log data, w.send log data = .sent data.length) (size : Nat)
    (hroom : 100 < w.clientBufferSize) (hsize : (hexadecimal size).length = 1) (h : Calm 0 c.out) :
    Ends (writeChunkHeader w size) c
      (fun _ c' => c' = { c with out := c'.out, chunk := c.chunk + 1 } ∧ Calm 5 c'.out ∧
        Output.Buffered c.out c'.out)
      fun _ _ => False := by
  have hheader : chunkHeader c.chunk size ≠ [] :=
    List.append_ne_nil_of_right_ne_nil _ Output.crlf_ne_nil
  have hlength : (chunkHeader c.chunk size).length ≤ 5 := by
    rw [chunkHeader, List.length_append, List.length_append, hsize]
    split_ifs <;> simp [crlf]
  simp only [writeChunkHeader, ends_bind, ends_get, ends_set, ends_liftOut, ends_pure]
  have hcalm := write_calm hsend (chunkHeader c.chunk size) false hheader (by omega)
    (fun hnow => absurd hnow Bool.false_ne_true) h
  refine (hcalm.and (Output.write_false_bufferedEmits _ hheader)).mono fun _ out hout => ?_
  refine ⟨trivial, ?_, hout.2.2.1⟩
  have hbounded := hout.1
  rw [if_neg Bool.false_ne_true, Nat.zero_add] at hbounded
  exact { hbounded with bounded := hbounded.bounded.trans hlength }

theorem Calm.outBuf_ne_nil {size : Nat} {o o' : Output} (h : Calm 0 o) (h' : Calm size o')
    (hbuffered : Output.Buffered o o') : o'.outBuf ≠ [] := by
  rcases hbuffered with ⟨events, hlog, hfails⟩ | hfull
  · obtain ⟨event, hmem, hfailure⟩ := hfails h.isOpen h.noError
    have hquiet := h'.quiet event (by rw [hlog]; exact List.mem_append_right _ hmem)
    rw [hfailure] at hquiet
    cases hquiet
  · exact hfull

theorem Streaming.payload (hsend : ∀ log data, w.send log data = .sent data.length)
    (hroom : 100 < w.clientBufferSize) (h : Streaming c) :
    Ends (writerCall w (.payload [97] true)) c (fun _ c' => Streaming c') fun _ _ => False := by
  have hnot : c.state ≠ .sendingResponseHeaders := by
    rw [h.state]
    decide
  rw [writerCall, Connection.payload, ends_bind, ends_get, if_neg hnot, if_pos h.state, payloadBody, ends_bind,
    ends_get, if_pos ⟨List.cons_ne_nil _ _, h.encoding⟩, ends_bind]
  refine (writeChunkHeader_calm hsend _ hroom (by decide) h.calm).mono (fun _ c₁ h₁ => ?_)
    fun _ _ => id
  obtain ⟨hc₁, hcalm, hbuffered⟩ := h₁
  have hfull := h.calm.outBuf_ne_nil hcalm hbuffered
  rw [ends_bind, ends_liftOut]
  refine (write_calm hsend [97] true (List.cons_ne_nil _ _) (by simpa using hroom.trans' (by decide))
    (fun _ => hfull) hcalm).mono fun _ out hout => ?_
  rw [hc₁]
  exact ⟨h.alive, h.writer, h.state, h.encoding, hout⟩

theorem Streaming.finish (hsend : ∀ log data, w.send log data = .sent data.length)
    (hroom : 100 < w.clientBufferSize) (h : Streaming c) :
    Ends (writerCall w (.finish true)) c (fun _ c' => Calm 0 c'.out) fun _ _ => False := by
  have hnot : c.state ≠ .sendingResponseHeaders := by
    rw [h.state]
    decide
  rw [writerCall, Connection.finish, ends_bind, ends_get, if_neg hnot, if_pos h.state, finishBody,
    ends_bind, ends_get, if_pos h.encoding, ends_bind]
  refine (writeChunkHeader_calm hsend 0 hroom (by decide) h.calm).mono (fun _ c₁ h₁ => ?_)
    fun _ _ => id
  rw [ends_bind, ends_liftOut]
  refine (write_calm hsend crlf false Output.crlf_ne_nil (by simpa using hroom.trans' (by decide))
    (fun hnow => absurd hnow Bool.false_ne_true) h₁.2.1).mono fun _ out hout => ?_
  rw [ends_bind, ends_liftOut]
  exact (flush_calm hsend hout).mono fun _ out' hout' => hout'

/-- A call whose outcome is known is a step of the run. -/
theorem run_writer_call {call : WriterCall} (events : List Event) {post : Connection → Prop}
    (halive : c.alive = true) (hwriter : c.writer = true)
    (h : Ends (writerCall w call) c (fun _ c' => post c') fun _ _ => False) :
    ∃ c₁, post c₁ ∧ run w (.writer call :: events) c = run w events c₁ := by
  unfold Ends at h
  cases hcall : (writerCall w call).run c with
  | error e c₁ =>
      rw [hcall] at h
      exact h.elim
  | ok result c₁ =>
      rw [hcall] at h
      refine ⟨c₁, h, run_cons_ok ?_⟩
      rw [step, EStateM.run_bind, EStateM.run_get]
      dsimp only
      rw [if_pos hwriter, if_pos halive]
      exact hcall

theorem Streaming.run (hsend : ∀ log data, w.send log data = .sent data.length)
    (hroom : 100 < w.clientBufferSize) (count : Nat) (h : Streaming c) :
    ∃ c', Connection.run w
        (List.replicate count (.writer (.payload [97] true)) ++ [.writer (.finish true)]) c
        = .ok c' ∧ Calm 0 c'.out := by
  induction count generalizing c with
  | zero =>
      obtain ⟨c₁, hcalm, hrun⟩ := run_writer_call [] h.alive h.writer
        (h.finish hsend hroom)
      exact ⟨c₁, hrun, hcalm⟩
  | succ count ih =>
      rw [List.replicate_succ, List.cons_append]
      obtain ⟨c₁, hstreaming, hrun⟩ := run_writer_call
        (List.replicate count (.writer (.payload [97] true)) ++ [.writer (.finish true)])
        h.alive h.writer (h.payload hsend hroom)
      rw [hrun]
      exact ih hstreaming

theorem after_payloads (code : ResponseCode) (encoding : TransferEncoding)
    (lines : List (Bytes × Bytes)) (before data : List Bytes) :
    (Progress.body code encoding lines before).after
        (data.map fun payload => .writer (.payload payload true)) =
      .body code encoding lines (before ++ data) := by
  induction data generalizing before with
  | nil => rw [List.append_nil]; rfl
  | cons first data ih =>
      have hrest := ih (before ++ [first])
      rw [List.append_assoc] at hrest
      exact hrest

theorem after_chunkedResponse (first : Bytes) (data : List Bytes) :
    Progress.awaiting.after (chunkedResponse (first :: data)) =
      .done .ok .chunked [] (first :: data) := by
  have hbody := after_payloads .ok .chunked [] [first] data
  rw [Progress.after] at hbody
  rw [Progress.after, chunkedResponse, List.foldl_append]
  change ((data.map fun payload => .writer (.payload payload true)).foldl Progress.next
    (.body .ok .chunked [] [first])).next (.writer (.finish true)) = _
  rw [hbody]
  rfl

/-- Any number of chunks of one byte can be sent. -/
theorem run_many (count : Nat) :
    ∃ c c' : Connection,
      run (.pages ⟨[]⟩) [.readable (.data ⟨ascii "GET / HTTP/1.1\r\n\r\n", by decide⟩)] fresh = .ok c ∧
      c.closing = false ∧ c.state = .awaitingResponseBegin ∧
      run (.pages ⟨[]⟩) (chunkedResponse (List.replicate (count + 1) [97])) c = .ok c' ∧
      c'.closing = false ∧ NoFailure c c' ∧
      ∃ log, Output.emitted c'.out = Output.emitted c.out ++
        (headText (.pages ⟨[]⟩) .ok .chunked ((World.pages ⟨[]⟩).now log) [] ++ crlf) ++
        chunkedBody (List.replicate (count + 1) [97]) := by
  have hrun : (do
      let c ← run (.pages ⟨[]⟩)
        [.readable (.data ⟨ascii "GET / HTTP/1.1\r\n\r\n", by decide⟩)] fresh
      let c₁ ← run (.pages ⟨[]⟩)
        [.writer (.begin .ok .chunked), .writer (.payload [97] true)] c
      return decide ((c.alive = true ∧ c.isActive = true ∧ c.closing = false ∧
          c.state = State.awaitingResponseBegin) ∧
        (c₁.alive = true ∧ c₁.writer = true ∧ c₁.state = State.sendingResponseBody ∧
          c₁.transferEncoding = TransferEncoding.chunked) ∧
        (c₁.out.closing = false ∧ c₁.out.hadSendError = false ∧
          c₁.out.registeredForWriteEvents = false ∧
          (∀ event ∈ c₁.out.log, Output.isFailure event = false) ∧ c₁.out.outBuf.length ≤ 0)))
      = .ok true := by
    decide +kernel
  obtain ⟨c, hc, hrun⟩ := ok_of_bind_eq_ok hrun
  obtain ⟨c₁, hc₁, hrun⟩ := ok_of_bind_eq_ok hrun
  injection hrun with hrun
  obtain ⟨⟨halive, hactive, hopen, hstate⟩, ⟨halive₁, hwriter₁, hbody, hencoding⟩,
    hopen₁, hnoError, hunregistered, hquiet, hbounded⟩ := of_decide_eq_true hrun
  have hstreaming : Streaming c₁ :=
    ⟨halive₁, hwriter₁, hbody, hencoding, hopen₁, hnoError, hunregistered, hquiet, hbounded⟩
  obtain ⟨c', hc', hcalm⟩ := hstreaming.run (w := .pages ⟨[]⟩) (fun _ _ => rfl) (by decide) count
  have hevents : chunkedResponse (List.replicate (count + 1) [97]) =
      [.writer (.begin .ok .chunked), .writer (.payload [97] true)] ++
        (List.replicate count (.writer (.payload [97] true)) ++ [.writer (.finish true)]) := by
    simp [chunkedResponse, List.replicate_succ]
  have hresponse : run (.pages ⟨[]⟩) (chunkedResponse (List.replicate (count + 1) [97])) c = .ok c' := by
    rw [hevents, run_append hc₁, hc']
  have hnoFailure : NoFailure c c' := fun event hmem => hcalm.quiet event (List.mem_of_mem_drop hmem)
  have hmeanwhile : Throughout (.pages ⟨[]⟩) Meanwhile
      (chunkedResponse (List.replicate (count + 1) [97])) c := by
    refine throughout_of_forall fun event hmem c => ?_
    rw [hevents] at hmem
    simp only [List.mem_append, List.mem_cons, List.not_mem_nil, or_false, List.mem_replicate] at hmem
    rcases hmem with (rfl | rfl) | ⟨-, rfl⟩ | rfl <;> trivial
  have hdone := after_chunkedResponse [97] (List.replicate count [97])
  rw [← List.replicate_succ] at hdone
  have hwritten := run_written hresponse
    (written_awaiting hc ReflTransGen.refl halive hopen hstate) halive hactive hmeanwhile
    (Or.inl (by rw [hdone]; rfl)) hnoFailure
  rw [hdone] at hwritten
  obtain ⟨log, hlog⟩ := hwritten.text
  refine ⟨c, c', hc, hopen, hstate, hresponse, hcalm.isOpen, hnoFailure, log, ?_⟩
  rw [hlog, Progress.text, chunkedBody]
  simp only [List.append_assoc]

/-- The body of a response with 2^32 chunks of one byte. -/
theorem not_decodes_of_wrapped :
    ∃ (data : List Bytes) (c c' : Connection), chunks data = 2 ^ 32 ∧
      run (.pages ⟨[]⟩) [.readable (.data ⟨ascii "GET / HTTP/1.1\r\n\r\n", by decide⟩)] fresh = .ok c ∧
      c.closing = false ∧ c.state = .awaitingResponseBegin ∧
      run (.pages ⟨[]⟩) (chunkedResponse data) c = .ok c' ∧
      c'.closing = false ∧ NoFailure c c' ∧
      ∃ log body, Output.emitted c'.out = Output.emitted c.out ++
          (headText (.pages ⟨[]⟩) .ok .chunked ((World.pages ⟨[]⟩).now log) [] ++ crlf) ++ body ∧
        ChunkedBody.decode body ≠ some (data.flatten, []) := by
  have hcount : chunks (List.replicate (2 ^ 32 - 1 + 1) [97]) = 2 ^ 32 := by
    rw [chunks, List.filter_replicate_of_pos (by decide), List.length_replicate]
    exact Nat.sub_add_cancel Nat.one_le_two_pow
  obtain ⟨c, c', hc, hopen, hstate, hresponse, hopen', hquiet, log, hemitted⟩ := run_many (2 ^ 32 - 1)
  refine ⟨_, c, c', hcount, hc, hopen, hstate, hresponse, hopen', hquiet, log, _, hemitted, ?_⟩
  intro hdecode
  have hfew := (decode_chunkedBody _).mp hdecode
  rw [hcount] at hfew
  exact Nat.lt_irrefl _ hfew

end Seasocks.Connection
