import Seasocks.Proof.Emission
import Seasocks.Proof.EpollInterest
import Seasocks.Proof.Exceptions
import Seasocks.Proof.Responses

/-!
# The protocol of a writer

A response begins, has header lines, has a payload and finishes. The calls made in this order decide
what is emitted; any other call does nothing.
-/

namespace Seasocks.Connection

open Program Relation

variable {w : World} {c : Connection}

/-! ### Legal calls -/

/-- The states a call may come in. -/
def Legal (state : State) : WriterCall → Prop
  | .begin _ _ | .error _ _ => state = .awaitingResponseBegin
  | .header _ _ => state = .sendingResponseHeaders
  | .payload _ _ | .finish _ => state = .sendingResponseHeaders ∨ state = .sendingResponseBody

/-- Any other call is ignored. -/
theorem writerCall_eq_of_illegal {call : WriterCall} (hillegal : ¬ Legal c.state call) :
    (writerCall w call).run c = .ok () c := by
  have skip : ∀ {state : State} {m : ConnM Unit}, c.state ≠ state →
      (do if (← get).state = state then m : ConnM Unit).run c = .ok () c := by
    intro state m hstate
    rw [EStateM.run_bind, EStateM.run_get]
    dsimp only
    rw [if_neg hstate]
    rfl
  cases call with
  | begin | error | header => exact skip hillegal
  | payload data flush =>
      obtain ⟨hheaders, hbody⟩ := not_or.mp hillegal
      rw [writerCall, payload, EStateM.run_bind, EStateM.run_get]
      dsimp only
      rw [if_neg hheaders, if_neg hbody]
      rfl
  | finish keepConnectionOpen =>
      obtain ⟨hheaders, hbody⟩ := not_or.mp hillegal
      rw [writerCall, finish, EStateM.run_bind, EStateM.run_get]
      dsimp only
      rw [if_neg hheaders, if_neg hbody]
      rfl

/-! ### The text of a response -/

/-- The non-empty payloads, as `_chunk` counts them. -/
def chunkCount (data : List Bytes) : UInt32 := UInt32.ofNat (data.filter (· ≠ [])).length

def chunkHeader (chunk : UInt32) (size : Nat) : Bytes :=
  (if chunk = 0 then [] else crlf) ++ hexadecimal size ++ crlf

/-- What a payload adds behind those before it. -/
def payloadText (encoding : TransferEncoding) (before : List Bytes) (data : Bytes) : Bytes :=
  match encoding with
  | .raw => data
  | .chunked => if data = [] then [] else chunkHeader (chunkCount before) data.length ++ data

def bodyText (encoding : TransferEncoding) : List Bytes → List Bytes → Bytes
  | _, [] => []
  | before, data :: rest =>
      payloadText encoding before data ++ bodyText encoding (before ++ [data]) rest

def endText (encoding : TransferEncoding) (data : List Bytes) : Bytes :=
  match encoding with
  | .raw => []
  | .chunked => chunkHeader (chunkCount data) 0 ++ crlf

def lineText (line : Bytes × Bytes) : Bytes := line.1 ++ ascii ": " ++ line.2 ++ crlf

def headText (w : World) (code : ResponseCode) (encoding : TransferEncoding) (date : Bytes)
    (lines : List (Bytes × Bytes)) : Bytes :=
  Output.commonHead w code date ++
    (match encoding with
      | .raw => []
      | .chunked => ascii "Transfer-encoding: chunked" ++ crlf) ++
    lines.flatMap lineText

theorem bodyText_concat (encoding : TransferEncoding) (before data : List Bytes) (last : Bytes) :
    bodyText encoding before (data ++ [last]) =
      bodyText encoding before data ++ payloadText encoding (before ++ data) last := by
  induction data generalizing before with
  | nil => simp [bodyText]
  | cons first data ih =>
      rw [List.cons_append, bodyText, ih, bodyText, List.append_assoc, List.append_assoc]
      rfl

theorem chunkCount_concat (data : List Bytes) (last : Bytes) :
    chunkCount (data ++ [last]) = if last = [] then chunkCount data else chunkCount data + 1 := by
  rw [chunkCount, chunkCount, List.filter_append]
  split_ifs with hlast
  · simp [hlast]
  · simp [hlast, UInt32.ofNat_add]

/-! ### Progress -/

/-- How far a response has come by the calls made in sequence. -/
inductive Progress where
  | awaiting
  | headers (code : ResponseCode) (encoding : TransferEncoding) (lines : List (Bytes × Bytes))
  | body (code : ResponseCode) (encoding : TransferEncoding) (lines : List (Bytes × Bytes))
      (data : List Bytes)
  | done (code : ResponseCode) (encoding : TransferEncoding) (lines : List (Bytes × Bytes))
      (data : List Bytes)
deriving DecidableEq, Repr

namespace Progress

/-- Calls that are not next in sequence do not count. -/
def next : Progress → Event → Progress
  | .awaiting, .writer (.begin code encoding) => .headers code encoding []
  | .headers code encoding lines, .writer (.header name value) =>
      .headers code encoding (lines ++ [(name, value)])
  | .headers code encoding lines, .writer (.payload data _) => .body code encoding lines [data]
  | .headers code encoding lines, .writer (.finish _) => .done code encoding lines []
  | .body code encoding lines data, .writer (.payload last _) =>
      .body code encoding lines (data ++ [last])
  | .body code encoding lines data, .writer (.finish _) => .done code encoding lines data
  | progress, _ => progress

def after (events : List Event) (progress : Progress) : Progress := events.foldl next progress

/-- A status line with the common headers, the header lines, one blank line, and the body. -/
def text (w : World) (date : Bytes) : Progress → Bytes
  | .awaiting => []
  | .headers code encoding lines => headText w code encoding date lines
  | .body code encoding lines data =>
      headText w code encoding date lines ++ crlf ++ bodyText encoding [] data
  | .done code encoding lines data =>
      headText w code encoding date lines ++ crlf ++ bodyText encoding [] data ++ endText encoding data

def state : Progress → State
  | .awaiting => .awaitingResponseBegin
  | .headers _ _ _ => .sendingResponseHeaders
  | .body _ _ _ _ => .sendingResponseBody
  | .done _ _ _ _ => .readingHeaders

/-- The connection is where the response is, with the encoding and the count of chunks it needs. -/
def Reached (c : Connection) (progress : Progress) : Prop :=
  c.state = progress.state ∧
    match progress with
    | .awaiting => c.chunk = 0
    | .headers _ encoding _ => c.transferEncoding = encoding ∧ c.chunk = 0
    | .body _ encoding _ data =>
        c.transferEncoding = encoding ∧ (encoding = .chunked → c.chunk = chunkCount data)
    | .done _ _ _ _ => True

theorem next_of_illegal {progress : Progress} {call : WriterCall}
    (hillegal : ¬ Legal progress.state call) : progress.next (.writer call) = progress := by
  cases progress <;> cases call <;> first | rfl | simp [Legal, state] at hillegal

end Progress

/-! ### The calls -/

/-- From `o` on, the connection has stayed open and emitted `bytes`, unless something has failed. -/
theorem begin_emits (code : ResponseCode) (encoding : TransferEncoding)
    (hstate : c.state = .awaitingResponseBegin) :
    Ends (begin w code encoding) c
      (fun _ c' => c'.state = .sendingResponseHeaders ∧ c'.transferEncoding = encoding ∧
        c'.chunk = c.chunk ∧
        ∃ log, Output.Emits (headText w code encoding (w.now log) []) c.out c'.out)
      fun _ _ => False := by
  rw [begin, ends_bind, ends_get, if_pos hstate]
  simp only [setState, ends_bind, ends_modify, ends_liftOut, ends_ite, ends_pure]
  refine (Output.bufferResponseAndCommonHeaders_emits code).mono fun _ out hout => ?_
  obtain ⟨log, hemits⟩ := hout
  constructor
  · rintro rfl
    refine (Output.bufferText_emits _).mono fun _ out' hout' =>
      ⟨trivial, trivial, trivial, log, ?_⟩
    have hboth := hemits.trans hout'
    simpa [headText] using hboth
  · intro hraw
    refine ⟨trivial, trivial, trivial, log, ?_⟩
    cases encoding with
    | raw => simpa [headText] using hemits
    | chunked => exact absurd rfl hraw

theorem header_emits (name value : Bytes) (hstate : c.state = .sendingResponseHeaders) :
    Ends (header w name value) c
      (fun _ c' => c' = { c with out := c'.out } ∧ Output.Emits (lineText (name, value)) c.out c'.out)
      fun _ _ => False := by
  rw [header, ends_bind, ends_get, if_pos hstate]
  simp only [ends_bind, ends_liftOut, ends_pure]
  exact (Output.bufferLine_emits _).mono fun _ out hout => ⟨trivial, hout⟩

theorem writeChunkHeader_emits (size : Nat) (c : Connection) :
    Ends (writeChunkHeader w size) c
      (fun _ c' => c' = { c with out := c'.out, chunk := c.chunk + 1 } ∧
        Output.Emits (chunkHeader c.chunk size) c.out c'.out ∧ Output.Buffered c.out c'.out)
      fun _ _ => False := by
  have hheader : chunkHeader c.chunk size ≠ [] :=
    List.append_ne_nil_of_right_ne_nil _ Output.crlf_ne_nil
  simp only [writeChunkHeader, ends_bind, ends_get, ends_set, ends_liftOut, ends_pure]
  exact (Output.write_false_bufferedEmits _ hheader).mono fun _ out hout =>
    ⟨trivial, hout.1, hout.2.1⟩

/-- `payload` behind what has been emitted since `o`. -/
theorem payloadBody_emits {o : Output} {bytes : Bytes} {before : List Bytes} (data : Bytes)
    (flush : Bool) (hemits : Output.Emits bytes o c.out)
    (hchunk : c.transferEncoding = .chunked → c.chunk = chunkCount before)
    (hwhole : flush = true → c.transferEncoding = .raw →
      Output.Buffered o c.out ∨ ¬ Output.Truncates w c.out data) :
    Ends (payloadBody w data flush) c
      (fun _ c' => c'.state = c.state ∧ c'.transferEncoding = c.transferEncoding ∧
        (c.transferEncoding = .chunked → c'.chunk = chunkCount (before ++ [data])) ∧
        Output.Emits (bytes ++ payloadText c.transferEncoding before data) o c'.out)
      fun _ _ => False := by
  rw [payloadBody, ends_bind, ends_get, ends_ite]
  constructor
  · rintro ⟨hdata, hchunked⟩
    rw [ends_bind]
    refine (writeChunkHeader_emits data.length c).mono (fun _ c₁ h₁ => ?_) fun _ _ => id
    obtain ⟨hc₁, hheader, hbuffered⟩ := h₁
    have hboth := hemits.trans hheader
    rw [ends_bind, ends_liftOut]
    refine (Output.write_emits_of_buffered data flush hboth ?_).mono fun _ out hout => ?_
    · exact hbuffered.imp_left hemits.fails
    · rw [ends_pure, hc₁]
      refine ⟨rfl, rfl, fun _ => ?_, ?_⟩
      · rw [chunkCount_concat, if_neg hdata, ← hchunk hchunked]
      · rw [hchunked, payloadText, if_neg hdata, ← hchunk hchunked, ← List.append_assoc]
        exact hout
  · intro hplain
    have htext : payloadText c.transferEncoding before data = data := by
      cases hencoding : c.transferEncoding with
      | raw => rfl
      | chunked =>
          have hdata : data = [] := by
            by_contra hdata
            exact hplain ⟨hdata, hencoding⟩
          rw [payloadText, if_pos hdata, hdata]
    have hdone : After (Output.write w data flush) c.out
        fun _ out => Output.Emits (bytes ++ data) o out := by
      by_cases hbuffered : Output.Buffered o c.out
      · exact Output.write_emits_of_buffered data flush hemits hbuffered
      · refine (Output.write_emits data flush fun hflush htruncates => ?_).mono fun _ out hout =>
          hemits.trans hout.1
        cases hencoding : c.transferEncoding with
        | raw => exact (hwhole hflush hencoding).elim hbuffered fun hnot => hnot htruncates
        | chunked =>
            obtain ⟨-, count, hcount, -⟩ := htruncates
            refine hplain ⟨fun hdata => ?_, hencoding⟩
            rw [hdata] at hcount
            exact Nat.not_lt_zero _ hcount
    rw [ends_bind, ends_liftOut]
    refine hdone.mono fun _ out hout => ⟨rfl, rfl, fun hchunked => ?_, ?_⟩
    · have hdata : data = [] := by
        by_contra hdata
        exact hplain ⟨hdata, hchunked⟩
      rw [chunkCount_concat, if_pos hdata]
      exact hchunk hchunked
    · rw [htext]
      exact hout

/-- What has been emitted, of a connection that may be closing by now. -/
def Adds (bytes : Bytes) (o o' : Output) : Prop :=
  ∃ events, o'.log = o.log ++ events ∧
    (o.closing = false → o.hadSendError = false →
      (∀ event ∈ events, Output.isFailure event = false) →
      Output.emitted o' = Output.emitted o ++ bytes)

theorem adds_of_emits {bytes : Bytes} {o o' o'' : Output} (h : Output.Emits bytes o o')
    (hgrow : o'.log <+: o''.log) (hsame : Output.emitted o'' = Output.emitted o') :
    Adds bytes o o'' := by
  obtain ⟨events, hlog, hemits⟩ := h
  obtain ⟨events', hlog'⟩ := hgrow
  refine ⟨events ++ events', by rw [← hlog', hlog, List.append_assoc], ?_⟩
  intro hopen hnoError hquiet
  rw [List.forall_mem_append] at hquiet
  rw [hsame]
  exact (hemits hopen hnoError hquiet.1).2.2

theorem finishBody_adds {o : Output} {bytes : Bytes} {data : List Bytes} (keepConnectionOpen : Bool)
    (hemits : Output.Emits bytes o c.out)
    (hchunk : c.transferEncoding = .chunked → c.chunk = chunkCount data) :
    Ends (finishBody w keepConnectionOpen) c
      (fun _ c' => c'.state = .readingHeaders ∧
        Adds (bytes ++ endText c.transferEncoding data) o c'.out)
      fun _ _ => False := by
  have close : ∀ {bytes} (c : Connection), Output.Emits bytes o c.out → Ends (do
      let _ ← liftOut (Output.flush w)
      if !keepConnectionOpen then
        liftOut Output.closeWhenEmpty
      modify fun c => { c with state := .readingHeaders, response := none } : ConnM Unit) c
      (fun _ c' => c'.state = .readingHeaders ∧ Adds bytes o c'.out) fun _ _ => False := by
    intro bytes c hemits
    rw [ends_bind, ends_liftOut]
    refine Output.flush_emits.mono fun _ out hout => ?_
    have hflushed := hemits.trans hout
    rw [List.append_nil] at hflushed
    rw [ends_ite]
    refine ⟨fun _ => ?_, fun _ => ⟨rfl, adds_of_emits hflushed List.prefix_rfl rfl⟩⟩
    rw [ends_bind, ends_liftOut]
    have hgrow : After Output.closeWhenEmpty out fun _ out' => out.log <+: out'.log :=
      Output.OpStep.log_grows (w := w) ⟨.closeWhenEmpty, rfl⟩
    refine ((Output.closeWhenEmpty_emitted out).and hgrow).mono fun _ out' hout' => ?_
    exact ⟨rfl, adds_of_emits hflushed hout'.2 hout'.1⟩
  rw [finishBody, ends_bind, ends_get, ends_ite]
  constructor
  · intro hchunked
    rw [ends_bind]
    refine (writeChunkHeader_emits 0 c).mono (fun _ c₁ h₁ => ?_) fun _ _ => id
    have hheader := hemits.trans h₁.2.1
    rw [ends_bind, ends_liftOut]
    refine (Output.write_false_emits crlf).mono fun _ out hout => ?_
    have hend := hheader.trans hout.1
    rw [hchunked, endText, ← hchunk hchunked, ← List.append_assoc]
    exact close { c₁ with out := out } hend
  · intro hraw
    have hencoding : c.transferEncoding = .raw := by
      cases hencoding : c.transferEncoding with
      | raw => rfl
      | chunked => exact absurd hencoding hraw
    rw [hencoding, endText, List.append_nil]
    exact close c hemits

/-! ### Steps and runs -/

namespace Progress

def isDone : Progress → Bool
  | .done _ _ _ _ => true
  | _ => false

def encoding : Progress → Option TransferEncoding
  | .awaiting => none
  | .headers _ encoding _ | .body _ encoding _ _ | .done _ encoding _ _ => some encoding

theorem encoding_after {progress : Progress} {encoding : TransferEncoding} (events : List Event)
    (h : progress.encoding = some encoding) : (progress.after events).encoding = some encoding := by
  induction events generalizing progress with
  | nil => exact h
  | cons event events ih =>
      refine ih ?_
      cases progress with
      | awaiting => cases h
      | headers | body | done =>
          unfold next
          split
          all_goals first | exact h | simp_all [Progress.encoding]

end Progress

/-- The events around a response that is written: calls of its writer but for error pages, the socket
becoming writable, and data that arrives before the response is complete. -/
def Meanwhile (event : Event) (c : Connection) : Prop :=
  match event with
  | .writer (.error _ _) => False
  | .writer _ | .writable => True
  | .readable (.data _) => Responding c
  | _ => False

/-- No part of a payload is taken for the whole of it. -/
def Whole (w : World) (event : Event) (c : Connection) : Prop :=
  ∀ data, event = .writer (.payload data true) → c.state = .sendingResponseBody →
    c.transferEncoding = .raw → ¬ Output.Truncates w c.out data

/-- Since `c₀` the text of the response has been emitted, as far as it has come. -/
structure Written (w : World) (c₀ : Connection) (progress : Progress) (c : Connection) : Prop where
  reached : progress.Reached c
  text : ∃ log, Output.emitted c.out = Output.emitted c₀.out ++ progress.text w (w.now log)
  steady : progress.isDone = false → c.closing = false ∧ c.out.hadSendError = false

theorem noFailure_of_log {c' : Connection} {events : List OutEvent}
    (hlog : c'.out.log = c.out.log ++ events) :
    NoFailure c c' ↔ ∀ event ∈ events, Output.isFailure event = false := by
  rw [NoFailure, hlog, List.drop_left]

theorem Written.emit {c₀ c' : Connection} {progress progress' : Progress} {bytes : Bytes}
    (h : Written w c₀ progress c) (hdone : progress.isDone = false)
    (hemits : Output.Emits bytes c.out c'.out) (hreached : progress'.Reached c')
    (htext : ∀ log, ∃ log', progress'.text w (w.now log') = progress.text w (w.now log) ++ bytes)
    (hquiet : NoFailure c c') : Written w c₀ progress' c' := by
  obtain ⟨hopen, hnoError⟩ := h.steady hdone
  obtain ⟨log, hlog⟩ := h.text
  obtain ⟨log', hlog'⟩ := htext log
  obtain ⟨events, hevents, hemitted⟩ := hemits
  have hstill := hemitted hopen hnoError ((noFailure_of_log hevents).mp hquiet)
  refine ⟨hreached, ⟨log', ?_⟩, fun _ => ⟨hstill.1, hstill.2.1⟩⟩
  rw [hstill.2.2, hlog, hlog', List.append_assoc]

theorem Written.add {c₀ c' : Connection} {progress progress' : Progress} {bytes : Bytes}
    (h : Written w c₀ progress c) (hdone : progress.isDone = false)
    (hadds : Adds bytes c.out c'.out) (hreached : progress'.Reached c')
    (htext : ∀ date, progress'.text w date = progress.text w date ++ bytes)
    (hdone' : progress'.isDone = true) (hquiet : NoFailure c c') : Written w c₀ progress' c' := by
  obtain ⟨hopen, hnoError⟩ := h.steady hdone
  obtain ⟨log, hlog⟩ := h.text
  obtain ⟨events, hevents, hemitted⟩ := hadds
  refine ⟨hreached, ⟨log, ?_⟩, fun hnot => absurd (hdone'.symm.trans hnot) Bool.false_ne_true.symm⟩
  rw [hemitted hopen hnoError ((noFailure_of_log hevents).mp hquiet), hlog, htext, List.append_assoc]

theorem Written.begin {c₀ : Connection} (h : Written w c₀ .awaiting c) (code : ResponseCode)
    (encoding : TransferEncoding) :
    Ends (begin w code encoding) c
      (fun _ c' => NoFailure c c' → Written w c₀ (.headers code encoding []) c') fun _ _ => False := by
  obtain ⟨hstate, hchunk⟩ := h.reached
  refine (begin_emits code encoding hstate).mono (fun _ c' hc' hquiet => ?_) fun _ _ => id
  obtain ⟨hstate', hencoding, hchunk', log, hemits⟩ := hc'
  refine h.emit rfl hemits ⟨hstate', hencoding, hchunk'.trans hchunk⟩ (fun _ => ?_) hquiet
  exact ⟨log, (List.nil_append _).symm⟩

section Headers

variable {c₀ : Connection} {code : ResponseCode} {encoding : TransferEncoding}
  {lines : List (Bytes × Bytes)}

theorem Written.header (h : Written w c₀ (.headers code encoding lines) c) (name value : Bytes) :
    Ends (header w name value) c
      (fun _ c' => NoFailure c c' →
        Written w c₀ (.headers code encoding (lines ++ [(name, value)])) c')
      fun _ _ => False := by
  obtain ⟨hstate, hreached⟩ := h.reached
  refine (header_emits name value hstate).mono (fun _ c' hc' hquiet => ?_) fun _ _ => id
  obtain ⟨hc', hemits⟩ := hc'
  refine h.emit rfl hemits ?_ (fun log => ⟨log, ?_⟩) hquiet
  · rw [hc']
    exact ⟨hstate, hreached⟩
  · simp [Progress.text, headText]

/-- The first payload brings the blank line with it. -/
theorem Written.payload_headers (h : Written w c₀ (.headers code encoding lines) c) (data : Bytes)
    (flush : Bool) :
    Ends (payload w data flush) c
      (fun _ c' => NoFailure c c' → Written w c₀ (.body code encoding lines [data]) c')
      fun _ _ => False := by
  obtain ⟨-, hencoding, hchunk⟩ := h.reached
  have hstate : c.state = .sendingResponseHeaders := h.reached.1
  rw [payload, ends_bind, ends_get, if_pos hstate, ends_bind, ends_liftOut]
  refine ((Output.bufferText_emits "").and (Output.bufferText_buffered "")).mono fun _ out hout => ?_
  rw [setState, ends_bind, ends_modify]
  have hcount : c.chunk = chunkCount [] := hchunk
  have hbody := payloadBody_emits (w := w) (c := { c with out := out, state := .sendingResponseBody })
    data flush hout.1 (fun _ => hcount) fun _ _ => Or.inl hout.2
  refine hbody.mono (fun _ c' hc' hquiet => ?_) fun _ _ => id
  obtain ⟨hstate', hencoding', hchunk', hemits⟩ := hc'
  refine h.emit rfl hemits ⟨hstate', hencoding'.trans hencoding, ?_⟩ (fun log => ⟨log, ?_⟩) hquiet
  · exact fun hchunked => hchunk' (hencoding.trans hchunked)
  · simp [Progress.text, bodyText, hencoding, ascii]

theorem Written.finish_headers (h : Written w c₀ (.headers code encoding lines) c)
    (keepConnectionOpen : Bool) :
    Ends (finish w keepConnectionOpen) c
      (fun _ c' => NoFailure c c' → Written w c₀ (.done code encoding lines []) c')
      fun _ _ => False := by
  obtain ⟨-, hencoding, hchunk⟩ := h.reached
  have hstate : c.state = .sendingResponseHeaders := h.reached.1
  rw [finish, ends_bind, ends_get, if_pos hstate, ends_bind, ends_liftOut]
  refine (Output.bufferText_emits "").mono fun _ out hout => ?_
  have hcount : c.chunk = chunkCount [] := hchunk
  have hbody := finishBody_adds (w := w) (c := { c with out := out }) keepConnectionOpen hout fun _ => hcount
  refine hbody.mono (fun _ c' hc' hquiet => ?_) fun _ _ => id
  refine h.add rfl hc'.2 ⟨hc'.1, trivial⟩ (fun date => ?_) rfl hquiet
  simp [Progress.text, bodyText, hencoding, ascii]

end Headers

section Body

variable {c₀ : Connection} {code : ResponseCode} {encoding : TransferEncoding}
  {lines : List (Bytes × Bytes)} {data : List Bytes}

theorem Written.payload_body (h : Written w c₀ (.body code encoding lines data) c) (last : Bytes)
    (flush : Bool) (hwhole : encoding = .raw → Whole w (.writer (.payload last flush)) c) :
    Ends (payload w last flush) c
      (fun _ c' => NoFailure c c' → Written w c₀ (.body code encoding lines (data ++ [last])) c')
      fun _ _ => False := by
  obtain ⟨-, hencoding, hchunk⟩ := h.reached
  have hstate : c.state = .sendingResponseBody := h.reached.1
  have hnot : c.state ≠ .sendingResponseHeaders := by
    rw [hstate]
    decide
  rw [payload, ends_bind, ends_get, if_neg hnot, if_pos hstate]
  have hbody := payloadBody_emits last flush (Output.Emits.refl c.out)
    (fun hchunked => hchunk (hencoding.symm.trans hchunked)) fun hflush hraw => Or.inr
      (hwhole (hencoding.symm.trans hraw) last (by rw [hflush]) hstate hraw)
  refine hbody.mono (fun _ c' hc' hquiet => ?_) fun _ _ => id
  obtain ⟨hstate', hencoding', hchunk', hemits⟩ := hc'
  refine h.emit rfl hemits ⟨hstate'.trans hstate, hencoding'.trans hencoding, ?_⟩
    (fun log => ⟨log, ?_⟩) hquiet
  · exact fun hchunked => hchunk' (hencoding.trans hchunked)
  · simp [Progress.text, bodyText_concat, hencoding]

theorem Written.finish_body (h : Written w c₀ (.body code encoding lines data) c)
    (keepConnectionOpen : Bool) :
    Ends (finish w keepConnectionOpen) c
      (fun _ c' => NoFailure c c' → Written w c₀ (.done code encoding lines data) c')
      fun _ _ => False := by
  obtain ⟨-, hencoding, hchunk⟩ := h.reached
  have hstate : c.state = .sendingResponseBody := h.reached.1
  have hnot : c.state ≠ .sendingResponseHeaders := by
    rw [hstate]
    decide
  rw [finish, ends_bind, ends_get, if_neg hnot, if_pos hstate]
  have hbody := finishBody_adds (w := w) keepConnectionOpen (Output.Emits.refl c.out)
    fun hchunked => hchunk (hencoding.symm.trans hchunked)
  refine hbody.mono (fun _ c' hc' hquiet => ?_) fun _ _ => id
  refine h.add rfl hc'.2 ⟨hc'.1, trivial⟩ (fun date => ?_) rfl hquiet
  simp [Progress.text, hencoding]

end Body

theorem Written.call {c₀ : Connection} {progress : Progress} {call : WriterCall}
    (h : Written w c₀ progress c) (hmeanwhile : Meanwhile (.writer call) c)
    (hwhole : progress.encoding = some .raw → Whole w (.writer call) c) :
    Ends (writerCall w call) c
      (fun _ c' => NoFailure c c' → Written w c₀ (progress.next (.writer call)) c')
      fun _ _ => False := by
  have skip : ¬ Legal progress.state call → Ends (writerCall w call) c
      (fun _ c' => NoFailure c c' → Written w c₀ (progress.next (.writer call)) c')
      fun _ _ => False := by
    intro hillegal
    have hstate : ¬ Legal c.state call := by rwa [h.reached.1]
    rw [ends_of_run_ok (writerCall_eq_of_illegal hstate), Progress.next_of_illegal hillegal]
    exact fun _ => h
  cases progress with
  | awaiting =>
      cases call with
      | begin code encoding => exact h.begin code encoding
      | error => exact hmeanwhile.elim
      | header | payload | finish => exact skip (by simp [Legal, Progress.state])
  | headers code encoding lines =>
      cases call with
      | header name value => exact h.header name value
      | payload data flush => exact h.payload_headers data flush
      | finish keepConnectionOpen => exact h.finish_headers keepConnectionOpen
      | begin | error => exact skip (by simp [Legal, Progress.state])
  | body code encoding lines data =>
      cases call with
      | payload last flush => exact h.payload_body last flush fun hraw => hwhole (by rw [hraw]; rfl)
      | finish keepConnectionOpen => exact h.finish_body keepConnectionOpen
      | begin | error | header => exact skip (by simp [Legal, Progress.state])
  | done code encoding lines data =>
      cases call with
      | begin | error | header | payload | finish => exact skip (by simp [Legal, Progress.state])

/-- Data that arrives is kept for later. -/
theorem handleDataReadyForRead_responding
    (received : { bytes : Bytes // bytes ≠ [] ∧ bytes.length ≤ readWriteBufferSize })
    (hresponding : Responding c) :
    Ends (handleDataReadyForRead w (.data received)) c
      (fun _ c' => c' = { c with bytesReceived := c'.bytesReceived, inBuf := c'.inBuf })
      fun _ _ => False := by
  have keep : ∀ c : Connection, Responding c →
      Ends (handleNewData w) c (fun _ c' => c' = c) fun _ _ => False := by
    intro c hresponding
    rw [handleNewData, ends_bind, ends_get, handleNewDataFrom, ends_bind, ends_get]
    rcases hresponding with hstate | hstate | hstate
    all_goals
      rw [hstate]
      rfl
  rw [handleDataReadyForRead, ends_bind, ends_get, ends_ite]
  refine ⟨fun _ => ?_, fun _ => rfl⟩
  dsimp only
  rw [ends_bind, ends_set]
  have hkeep := keep { c with
    bytesReceived := c.bytesReceived + received.val.length
    inBuf := c.inBuf ++ received.val } hresponding
  refine hkeep.mono (fun _ c' hc' => ?_) fun _ _ => id
  rw [hc']

theorem Written.step {c₀ : Connection} {progress : Progress} {event : Event}
    (h : Written w c₀ progress c) (halive : c.alive = true) (hwriter : c.writer = true)
    (hmeanwhile : Meanwhile event c) (hwhole : progress.encoding = some .raw → Whole w event c) :
    Ends (step w event) c
      (fun _ c' => NoFailure c c' → Written w c₀ (progress.next event) c') fun _ _ => False := by
  have same : ∀ event, (∀ call, event ≠ .writer call) → progress.next event = progress := by
    intro event hother
    cases event with
    | writer call => exact absurd rfl (hother call)
    | readable | writable | socket | destroy => cases progress <;> rfl
  rw [Connection.step, ends_bind, ends_get]
  cases event with
  | writer call =>
      dsimp only
      rw [if_pos hwriter, if_pos halive]
      exact h.call hmeanwhile hwhole
  | writable =>
      dsimp only
      rw [if_pos halive, ends_liftOut, same .writable (by simp)]
      refine (Output.handleDataReadyForWrite_emits.and Output.handleDataReadyForWrite_emitted).mono
        fun _ out hout hquiet => ?_
      cases hdone : progress.isDone with
      | false =>
          refine h.emit hdone hout.1 h.reached (fun log => ⟨log, ?_⟩) hquiet
          exact (List.append_nil _).symm
      | true =>
          obtain ⟨log, hlog⟩ := h.text
          refine ⟨h.reached, ⟨log, hout.2.trans hlog⟩, fun hnot => ?_⟩
          rw [hdone] at hnot
          cases hnot
  | readable result =>
      cases result with
      | error | endOfStream => exact hmeanwhile.elim
      | data received =>
          dsimp only
          rw [if_pos halive, same (.readable (.data received)) (by simp)]
          refine (handleDataReadyForRead_responding received hmeanwhile).mono (fun _ c' hc' _ => ?_)
            fun _ _ => id
          rw [hc']
          exact ⟨h.reached, h.text, h.steady⟩
  | socket | destroy => exact hmeanwhile.elim

/-- Unless the connection is destroyed, its output is only added to. -/
theorem takes_frame {c' : Connection} (h : ReflTransGen (Take w) c c') :
    Attached c c' ∧ c.out.log <+: c'.out.log := by
  induction h with
  | refl => exact ⟨⟨rfl, rfl⟩, List.prefix_rfl⟩
  | @tail c₁ c₂ _ htake ih =>
      obtain ⟨hmove, halive, hwriter⟩ := htake
      refine ⟨⟨halive.trans ih.1.1, hwriter.trans ih.1.2⟩, ih.2.trans ?_⟩
      rcases hmove.out_steps with hout | ⟨hdestroyed, -⟩
      · exact invariant_of_steps (fun o => c₁.out.log <+: o.log)
          (fun _ _ ho hstep => ho.trans (Output.OpStep.log_grows hstep)) hout List.prefix_rfl
      · exact absurd halive hdestroyed

theorem not_destroy_of_meanwhile {event : Event} (h : Meanwhile event c) : event ≠ .destroy := by
  rintro rfl
  exact h

theorem not_destroy_of_throughout {events : List Event} {c' : Connection}
    (hmeanwhile : Throughout w Meanwhile events c) (h : run w events c = .ok c') :
    ∀ event ∈ events, event ≠ .destroy := by
  intro event hmem
  obtain ⟨before, after, hsplit⟩ := List.append_of_mem hmem
  rw [hsplit] at h
  obtain ⟨c₁, hbefore⟩ := exists_run_of_append h
  exact not_destroy_of_meanwhile (hmeanwhile before event after c₁ hsplit hbefore)

theorem run_log_grows {events : List Event} {c' : Connection} (h : run w events c = .ok c')
    (hmeanwhile : ∀ event ∈ events, event ≠ .destroy) : c.out.log <+: c'.out.log := by
  induction events generalizing c with
  | nil =>
      injection h with h
      rw [h]
  | cons event events ih =>
      have hrest := fun event' hmem => hmeanwhile event' (List.mem_cons_of_mem event hmem)
      have hsteps := step_takes (w := w) (hmeanwhile event List.mem_cons_self) c
      unfold Steps Ends at hsteps
      rw [run] at h
      cases hrun : (step w event).run c with
      | ok result c₁ =>
          rw [hrun] at hsteps h
          exact (takes_frame hsteps).2.trans (ih h hrest)
      | error e c₁ =>
          rw [hrun] at hsteps h
          cases e with
          | fault f => cases h
          | exception e =>
              obtain ⟨c₂, htakes, hthrown⟩ := hsteps
              cases hthrown with
              | range =>
                  have hgrow := ih h hrest
                  exact (takes_frame htakes).2.trans hgrow

theorem NoFailure.split {c₁ c' : Connection} (h : NoFailure c c') (hgrow : c.out.log <+: c₁.out.log)
    (hgrow' : c₁.out.log <+: c'.out.log) : NoFailure c c₁ ∧ NoFailure c₁ c' := by
  obtain ⟨events, hevents⟩ := hgrow
  obtain ⟨events', hevents'⟩ := hgrow'
  have hall : c'.out.log = c.out.log ++ (events ++ events') := by
    rw [← hevents', ← hevents, List.append_assoc]
  rw [noFailure_of_log hall, List.forall_mem_append] at h
  exact ⟨(noFailure_of_log hevents.symm).mpr h.1, (noFailure_of_log hevents'.symm).mpr h.2⟩

theorem NoFailure.trans {c₁ c' : Connection} (h : NoFailure c c₁) (h' : NoFailure c₁ c')
    (hgrow : c.out.log <+: c₁.out.log) (hgrow' : c₁.out.log <+: c'.out.log) : NoFailure c c' := by
  obtain ⟨events, hevents⟩ := hgrow
  obtain ⟨events', hevents'⟩ := hgrow'
  have hall : c'.out.log = c.out.log ++ (events ++ events') := by
    rw [← hevents', ← hevents, List.append_assoc]
  rw [noFailure_of_log hall, List.forall_mem_append]
  exact ⟨(noFailure_of_log hevents.symm).mp h, (noFailure_of_log hevents'.symm).mp h'⟩

/-- The text of the response is emitted, as far as it comes. -/
theorem run_written {c₀ c' : Connection} {progress : Progress} {events : List Event}
    (h : run w events c = .ok c') (hwritten : Written w c₀ progress c) (halive : c.alive = true)
    (hwriter : c.writer = true) (hmeanwhile : Throughout w Meanwhile events c)
    (hwhole : (progress.after events).encoding = some .chunked ∨ Throughout w (Whole w) events c)
    (hquiet : NoFailure c c') : Written w c₀ (progress.after events) c' := by
  induction events generalizing c progress with
  | nil =>
      injection h with h
      exact h ▸ hwritten
  | cons event events ih =>
      have hfirst : Meanwhile event c := hmeanwhile [] event events c rfl rfl
      have hstep := hwritten.step halive hwriter hfirst fun hraw => by
        rcases hwhole with hchunked | hwhole
        · rw [Progress.encoding_after _ hraw] at hchunked
          cases hchunked
        · exact hwhole [] event events c rfl rfl
      have htakes := step_takes (w := w) (not_destroy_of_meanwhile hfirst) c
      unfold Ends at hstep
      unfold Steps Ends at htakes
      cases hrun : (step w event).run c with
      | error e c₁ =>
          rw [hrun] at hstep
          exact hstep.elim
      | ok result c₁ =>
          rw [hrun] at hstep htakes
          rw [run_cons_ok hrun] at h
          have htail := hmeanwhile.tail hrun
          have hgrow := run_log_grows h (not_destroy_of_throughout htail h)
          obtain ⟨⟨halive', hwriter'⟩, hgrow'⟩ := takes_frame htakes
          obtain ⟨hquiet', hquiet⟩ := hquiet.split hgrow' hgrow
          refine ih h (hstep hquiet') (halive'.trans halive) (hwriter'.trans hwriter) htail ?_ hquiet
          exact hwhole.imp_right fun hwhole => hwhole.tail hrun

/-! ### Where a response starts -/

/-- The count of chunks starts anew with every response. -/
def Uncounted (c : Connection) : Prop := c.state = .awaitingResponseBegin → c.chunk = 0

theorem uncounted_of_state {state : State} (hstate : c.state = state)
    (hnot : state ≠ .awaitingResponseBegin) : Uncounted c := fun hawaiting =>
  absurd (hstate.symm.trans hawaiting) hnot

theorem Uncounted.sends {c' : Connection} (h : Uncounted c) (hsends : Sends w c c') :
    Uncounted c' := by
  obtain ⟨out, calls, rfl, -⟩ := hsends.frame
  exact h

theorem Uncounted.write {c' : Connection} (h : Uncounted c) (hstep : WriteStep w c c') :
    Uncounted c' := by
  cases hstep with
  | send hsend => exact h.sends (ReflTransGen.single hsend)
  | headers hstate =>
      intro hawaiting
      cases hawaiting
  | encoding encoding hstate => exact h
  | body hstate =>
      intro hawaiting
      cases hawaiting
  | chunk chunk hstate =>
      rcases hstate with hstate | hstate
      · exact uncounted_of_state hstate State.noConfusion
      · exact uncounted_of_state hstate State.noConfusion
  | finish hstate =>
      intro hawaiting
      cases hawaiting

theorem Uncounted.move {c' : Connection} (h : Uncounted c) (hstep : Move w c c') : Uncounted c' := by
  cases hstep with
  | serve hserve =>
      cases hserve with
      | answer hanswer =>
          cases hanswer with
          | write hwrite => exact h.write hwrite
          | respond response hstate hnone => exact fun _ => rfl
          | setHandler | handle | openFile => exact h
          | awaitKey | connect =>
              intro hawaiting
              cases hawaiting
      | initialise | create => exact h
      | buffer =>
          intro hawaiting
          cases hawaiting
  | @disconnect c₁ handler out halive hresponse hhandler hsends hout =>
      have hrecorded : Uncounted
          { c with calls := c.calls ++ [⟨.onDisconnect handler, c.out⟩] } := h
      have hsent : Uncounted c₁ := hrecorded.sends hsends
      exact hsent
  | content | connect | connectNobody =>
      intro hawaiting
      cases hawaiting
  | headers | overwrite | drop | key | message | frame | inflate | data | receive | enlarge
  | cancel | vanish => exact h

theorem run_uncounted {events : List Event} (h : run w events fresh = .ok c) : Uncounted c := by
  refine run_invariant Uncounted (fun _ _ => Uncounted.move) (fun e c c' hc hthrown => ?_) h
    fun _ => rfl
  cases hthrown with
  | fault f => exact hc
  | range => exact hc

/-- A response that has just been handed its writer. -/
theorem written_awaiting {before : List Event} {c₀ : Connection}
    (hrun : run w before fresh = .ok c₀) (hmoves : Moves w c₀ c) (halive : c.alive = true)
    (hopen : c.closing = false) (hstate : c.state = .awaitingResponseBegin) :
    Written w c .awaiting c := by
  have hsound : Sound c := invariant_of_steps Sound (fun _ _ => Sound.move) hmoves (run_sound hrun)
  have huncounted : Uncounted c :=
    invariant_of_steps Uncounted (fun _ _ => Uncounted.move) hmoves (run_uncounted hrun)
  refine ⟨⟨hstate, huncounted hstate⟩, ⟨[], (List.append_nil _).symm⟩, fun _ => ?_⟩
  exact ⟨hopen, hsound.noError halive⟩

/-- **The protocol of a writer.** From the moment a response is handed its writer, what is emitted is
the text of the calls made in sequence, as long as the connection stays open and no payload is cut
short; and a call that is not legal changes nothing. -/
theorem run_protocol {before events : List Event} {c₀ c' : Connection}
    (hrun : run w before fresh = .ok c₀) (hmoves : Moves w c₀ c) (halive : c.alive = true)
    (hactive : c.isActive = true) (hopen : c.closing = false)
    (hstate : c.state = .awaitingResponseBegin) (h : run w events c = .ok c')
    (hmeanwhile : Throughout w Meanwhile events c) (hquiet : NoFailure c c')
    (hwhole : Throughout w (Whole w) events c) :
    (∃ log, Output.emitted c'.out =
      Output.emitted c.out ++ (Progress.awaiting.after events).text w (w.now log)) ∧
    ∀ c call, ¬ Legal c.state call → (writerCall w call).run c = .ok () c := by
  have hwritten := written_awaiting hrun hmoves halive hopen hstate
  refine ⟨?_, fun c call => writerCall_eq_of_illegal⟩
  exact (run_written h hwritten halive hactive hmeanwhile (Or.inr hwhole) hquiet).text

theorem throughout_of_forall {cond : Event → Connection → Prop} {events : List Event}
    (h : ∀ event ∈ events, ∀ c, cond event c) : Throughout w cond events c := by
  intro before event after c' hsplit _
  refine h event ?_ c'
  rw [hsplit]
  exact List.mem_append_right _ List.mem_cons_self

theorem whole_of_small {event : Event}
    (hsmall : ∀ data, event = .writer (.payload data true) → data.length < 2 ^ 32) :
    Whole w event c := fun data hevent _ _ => Output.not_truncates_of_lt (hsmall data hevent)

/-- A response in a wrong order, with a header too late. -/
theorem run_protocol_late :
    ∃ c c' : Connection,
      run (.pages ⟨[]⟩) [.readable (.data ⟨ascii "GET / HTTP/1.1\r\n\r\n", by decide⟩)] fresh = .ok c ∧
      run (.pages ⟨[]⟩)
        [.writer (.begin .ok .raw), .writer (.payload (ascii "text") true),
          .writer (.header (ascii "Late") (ascii "1")), .writer (.finish true)] c = .ok c' ∧
      ∃ log, Output.emitted c'.out = Output.emitted c.out ++
        (Progress.done .ok .raw [] [ascii "text"]).text (.pages ⟨[]⟩)
          ((World.pages ⟨[]⟩).now log) := by
  have hrun : (do
      let c ← run (.pages ⟨[]⟩)
        [.readable (.data ⟨ascii "GET / HTTP/1.1\r\n\r\n", by decide⟩)] fresh
      let c' ← run (.pages ⟨[]⟩)
        [.writer (.begin .ok .raw), .writer (.payload (ascii "text") true),
          .writer (.header (ascii "Late") (ascii "1")), .writer (.finish true)] c
      return decide (c.alive = true ∧ c.isActive = true ∧ c.closing = false ∧
        c.state = State.awaitingResponseBegin ∧
        ∀ event ∈ c'.out.log.drop c.out.log.length, Output.isFailure event = false)) = .ok true := by
    decide +kernel
  obtain ⟨c, hc, hrun⟩ := ok_of_bind_eq_ok hrun
  obtain ⟨c', hc', hrun⟩ := ok_of_bind_eq_ok hrun
  injection hrun with hrun
  obtain ⟨halive, hactive, hopen, hstate, hquiet⟩ := of_decide_eq_true hrun
  refine ⟨c, c', hc, hc', ?_⟩
  refine (run_protocol hc ReflTransGen.refl halive hactive hopen hstate hc' ?_ hquiet ?_).1
  · refine throughout_of_forall fun event hmem c => ?_
    simp only [List.mem_cons, List.not_mem_nil, or_false] at hmem
    rcases hmem with rfl | rfl | rfl | rfl <;> trivial
  · refine throughout_of_forall fun event hmem c => whole_of_small fun data hevent => ?_
    simp only [List.mem_cons, List.not_mem_nil, or_false] at hmem
    rcases hmem with rfl | rfl | rfl | rfl <;> cases hevent
    decide

/-! ### Payloads that are cut short -/

/-- The response goes on without the rest of such a payload. -/
theorem payload_loses {data : Bytes} (hstate : c.state = .sendingResponseBody)
    (hraw : c.transferEncoding = .raw) (hopen : c.closing = false)
    (hnoError : c.out.hadSendError = false) (htruncates : Output.Truncates w c.out data) :
    Ends (payload w data true) c
      (fun _ c' => c'.closing = false ∧ NoFailure c c' ∧
        (Output.emitted c'.out).length < (Output.emitted c.out).length + data.length)
      fun _ _ => False := by
  have hnot : c.state ≠ .sendingResponseHeaders := by
    rw [hstate]
    decide
  have hplain : ¬ (data ≠ [] ∧ c.transferEncoding = .chunked) := by
    rw [hraw]
    rintro ⟨-, hchunked⟩
    cases hchunked
  rw [payload, ends_bind, ends_get, if_neg hnot, if_pos hstate, payloadBody, ends_bind, ends_get,
    if_neg hplain, ends_bind, ends_liftOut]
  refine (Output.write_loses hopen hnoError htruncates).mono fun done out hout => ?_
  obtain ⟨-, hstill, ⟨result, hlog, hsend⟩, hlength⟩ := hout
  refine ⟨hstill, ?_, hlength⟩
  have hgrown : ({ c with out := out } : Connection).out.log =
      c.out.log ++ [.write data, .send data result] := hlog
  refine (noFailure_of_log hgrown).mpr fun event hmem => ?_
  simp only [List.mem_cons, List.not_mem_nil, or_false] at hmem
  rcases hmem with rfl | rfl
  · rfl
  · exact hsend

/-- The plain server on a socket that takes nothing after the first send. -/
def stalling : World :=
  { World.pages ⟨[]⟩ with
    send := fun log data =>
      if log.any (fun event => match event with | .send _ _ => true | _ => false) then
        .wouldBlock
      else
        .sent data.length }

theorem huge_lost {data : Bytes} (hsize : data.length = 2 ^ 32) :
    ∃ c c' : Connection,
      run stalling [.readable (.data ⟨ascii "GET / HTTP/1.1\r\n\r\n", by decide⟩)] fresh = .ok c ∧
      c.closing = false ∧ c.state = .awaitingResponseBegin ∧
      run stalling
        [.writer (.begin .ok .raw), .writer (.payload [] true), .writer (.payload data true)] c
        = .ok c' ∧
      c'.closing = false ∧ NoFailure c c' ∧
      ¬ ∃ log, Output.emitted c'.out = Output.emitted c.out ++
        (Progress.body .ok .raw [] [[], data]).text stalling (stalling.now log) := by
  have hrun : (do
      let c ← run stalling
        [.readable (.data ⟨ascii "GET / HTTP/1.1\r\n\r\n", by decide⟩)] fresh
      let c₁ ← run stalling [.writer (.begin .ok .raw), .writer (.payload [] true)] c
      return decide ((c.alive = true ∧ c.isActive = true ∧ c.closing = false ∧
          c.state = State.awaitingResponseBegin) ∧
        (∀ event ∈ c₁.out.log.drop c.out.log.length, Output.isFailure event = false) ∧
        c₁.out.outBuf = [] ∧ c₁.out.log.any
          (fun event => match event with | .send _ _ => true | _ => false) = true ∧
        c₁.alive = true ∧ c₁.writer = true)) = .ok true := by
    decide +kernel
  obtain ⟨c, hc, hrun⟩ := ok_of_bind_eq_ok hrun
  obtain ⟨c₁, hc₁, hrun⟩ := ok_of_bind_eq_ok hrun
  injection hrun with hrun
  obtain ⟨⟨halive, hactive, hopen, hstate⟩, hquiet, hempty, hsent, halive₁, hwriter₁⟩ :=
    of_decide_eq_true hrun
  have hmeanwhile : Throughout stalling Meanwhile
      [.writer (.begin .ok .raw), .writer (.payload [] true)] c := by
    refine throughout_of_forall fun event hmem c => ?_
    simp only [List.mem_cons, List.not_mem_nil, or_false] at hmem
    rcases hmem with rfl | rfl <;> trivial
  have hwhole : Throughout stalling (Whole stalling)
      [.writer (.begin .ok .raw), .writer (.payload [] true)] c := by
    refine throughout_of_forall fun event hmem c => whole_of_small fun data hevent => ?_
    simp only [List.mem_cons, List.not_mem_nil, or_false] at hmem
    rcases hmem with rfl | rfl <;> cases hevent
    decide
  have hquiet : NoFailure c c₁ := hquiet
  have hwritten : Written stalling c (.body .ok .raw [] [[]]) c₁ := run_written hc₁
    (written_awaiting hc ReflTransGen.refl halive hopen hstate) halive hactive hmeanwhile
    (Or.inr hwhole) hquiet
  obtain ⟨hbody, hraw, -⟩ := hwritten.reached
  obtain ⟨hopen₁, hnoError₁⟩ := hwritten.steady rfl
  have htruncates : Output.Truncates stalling c₁.out data := by
    refine ⟨hempty, 0, by omega, ?_, ?_⟩
    · have hblock : stalling.send (c₁.out.log ++ [.write data]) data = .wouldBlock := by
        refine if_pos ?_
        rw [List.any_append, hsent, Bool.true_or]
      rw [Output.sendCount, hblock]
    · rw [hsize]
      decide
  have hlost := payload_loses hbody hraw hopen₁ hnoError₁ htruncates
  unfold Ends at hlost
  cases hcall : (payload stalling data true).run c₁ with
  | error e c' =>
      rw [hcall] at hlost
      exact hlost.elim
  | ok result c' =>
      rw [hcall] at hlost
      obtain ⟨hopen', hquiet', hlength⟩ := hlost
      have hstep : (step stalling (.writer (.payload data true))).run c₁ = .ok () c' := by
        rw [step, EStateM.run_bind, EStateM.run_get]
        dsimp only
        rw [if_pos hwriter₁, if_pos halive₁]
        exact hcall
      have hlast : run stalling [.writer (.payload data true)] c₁ = .ok c' := by
        rw [run_cons_ok hstep]
        rfl
      refine ⟨c, c', hc, hopen, hstate, ?_, hopen', ?_, ?_⟩
      · exact (run_append hc₁).trans hlast
      · have hgrow := run_log_grows hc₁ (not_destroy_of_throughout hmeanwhile hc₁)
        have hgrow' := run_log_grows hlast (by simp)
        exact hquiet.trans hquiet' hgrow hgrow'
      · rintro ⟨log', hlog'⟩
        obtain ⟨log, hlog⟩ := hwritten.text
        rw [hlog, hlog'] at hlength
        have htext : (Progress.body .ok .raw [] [[], data]).text stalling (stalling.now log') =
            (Progress.body .ok .raw [] [[]]).text stalling (stalling.now log) ++ data := by
          simp [Progress.text, bodyText, payloadText, stalling, World.pages, World.plain]
        rw [htext] at hlength
        simp only [List.length_append] at hlength
        omega

/-- A payload of 4 GiB, none of which is sent. -/
theorem not_text_of_huge :
    ∃ (data : Bytes) (c c' : Connection), data.length = 2 ^ 32 ∧
      run stalling [.readable (.data ⟨ascii "GET / HTTP/1.1\r\n\r\n", by decide⟩)] fresh = .ok c ∧
      c.closing = false ∧ c.state = .awaitingResponseBegin ∧
      run stalling
        [.writer (.begin .ok .raw), .writer (.payload [] true), .writer (.payload data true)] c
        = .ok c' ∧
      c'.closing = false ∧ NoFailure c c' ∧
      ¬ ∃ log, Output.emitted c'.out = Output.emitted c.out ++
        (Progress.body .ok .raw [] [[], data]).text stalling (stalling.now log) := by
  have hsize : (List.replicate (2 ^ 32) (0 : UInt8)).length = 2 ^ 32 := List.length_replicate
  obtain ⟨c, c', hlost⟩ := huge_lost hsize
  exact ⟨_, c, c', hsize, hlost⟩

end Seasocks.Connection
