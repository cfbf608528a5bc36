import Seasocks.Proof.Frames
import Seasocks.Proof.PingAnswers

/-!
# The input of the decompressor

With compression, `inflate` is handed the payloads of the compressed frames that have been received, as
long as no read ends inside such a frame.
-/

namespace Seasocks.Connection

open Program Relation WebSocketFrame HybiPacketDecoder

variable {w : World} {c : Connection}

/-! ### Inputs and payloads -/

def inflateInput (entry : Entry) : Option Bytes :=
  match entry.call with
  | .inflate input => some input
  | _ => none

/-- What has been handed to `inflate`. -/
def inflateInputs (calls : List Entry) : List Bytes := calls.filterMap inflateInput

def compressedPayload (entry : Entry) : Option Bytes :=
  match entry.call with
  | .frame frame =>
      match scan frame with
      | .frame f _ => if f.compressed then some f.payload else none
      | .incomplete | .invalid => none
  | _ => none

/-- The payloads of the compressed frames among those taken. -/
def compressedPayloads (calls : List Entry) : List Bytes := calls.filterMap compressedPayload

/-- None of the complete frames a stream begins with is compressed. -/
def Uncompressed (stream : Bytes) : Prop :=
  AllFrames (fun rest => ∀ f size, scan rest = .frame f size → f.compressed = false) stream

/-- `inflate` has been handed the payloads of the compressed frames taken, and an open connection has left
no complete one in its buffer. -/
def InflatesExactly (c : Connection) : Prop :=
  inflateInputs c.calls = compressedPayloads c.calls ∧ (c.closed = false → Uncompressed c.inBuf)

theorem uncompressed_of_incomplete {stream : Bytes} (h : scan stream = .incomplete) :
    Uncompressed stream :=
  AllFrames.of_not_frame (by simp [h]) (by simp [h])

/-! ### Reads that end inside a frame -/

/-- Behind the frames that do not stop the loop, the stream does not end inside a compressed frame. -/
def EndsBetween (stream : Bytes) : Prop :=
  ∀ count, (∀ k < count, Passes (stream.drop (boundary stream k))) →
    ¬ MidCompressed (stream.drop (boundary stream count))

theorem endsBetween_iff {stream : Bytes} :
    EndsBetween stream ↔ ¬ MidCompressed stream ∧
      ∀ f size, scan stream = .frame f size → Passes stream → EndsBetween (stream.drop size) := by
  unfold EndsBetween
  rw [forall_passed_iff (p := fun start => ¬ MidCompressed (stream.drop start))]
  simp only [List.drop_zero, List.drop_drop]

/-- A turn of `handleNewData` on `c` finds the connection in the state `c'`. -/
inductive Turns (w : World) : Connection → Connection → Prop where
  | first (c : Connection) : Turns w c c
  | next {c c₁ c' : Connection} (hstate : c.state = .readingHeaders)
      (hrun : (handleHeaders w).run c = .ok true c₁) (h : Turns w c₁ c') : Turns w c c'

/-- Every turn finds `cond`, and there are no more than `fuel` turns. -/
def everyTurn (w : World) (cond : Connection → Bool) : Nat → Connection → Bool
  | 0, _ => false
  | fuel + 1, c =>
      cond c && (c.state ≠ .readingHeaders || match (handleHeaders w).run c with
        | .ok true c => everyTurn w cond fuel c
        | .ok false _ | .error _ _ => true)

theorem Turns.of_everyTurn {cond : Connection → Bool} {fuel : Nat} {c' : Connection} (h : Turns w c c')
    (hevery : everyTurn w cond fuel c = true) : cond c' = true := by
  induction h generalizing fuel with
  | first c =>
      cases fuel with
      | zero => cases hevery
      | succ fuel =>
          rw [everyTurn, Bool.and_eq_true] at hevery
          exact hevery.1
  | next hstate hrun _ ih =>
      cases fuel with
      | zero => cases hevery
      | succ fuel =>
          rw [everyTurn, hrun, Bool.and_eq_true] at hevery
          exact ih (by simpa [hstate] using hevery.2)

/-- What a turn must find: the frames in the buffer do not end inside a compressed frame, and behind the
body of a request to upgrade, where the turn ends, there is no complete one. -/
structure Undivided (c : Connection) : Prop where
  frames : c.state = .handlingHybiWebSocket → c.perMessageDeflate = true → EndsBetween c.inBuf
  body : c.state = .bufferingPostData → ∀ request request' inBuf, c.request = some request →
    request.consumeContent c.inBuf = some (request', inBuf) → request'.verb = .webSocket →
    Uncompressed inBuf

/-- The connection with what a read has returned. -/
def afterRead (c : Connection) (received : Bytes) : Connection :=
  { c with
    bytesReceived := c.bytesReceived + received.length
    inBuf := c.inBuf ++ received }

/-- No read fails while compressed frames may arrive, and every turn after a read finds its frames
undivided. -/
def ReadsUndivided (w : World) : Event → Connection → Prop
  | .readable .error, c =>
      c.closed = false → ¬ (c.state = .handlingHybiWebSocket ∧ c.perMessageDeflate = true)
  | .readable (.data received), c =>
      c.closed = false → ∀ c', Turns w (afterRead c received.val) c' → Undivided c'
  | _, _ => True

/-! ### What does not touch the decompressor -/

/-- Neither a frame has been taken nor anything been decompressed. -/
def Untouched (c c' : Connection) : Prop :=
  inflateInputs c'.calls = inflateInputs c.calls ∧ compressedPayloads c'.calls = compressedPayloads c.calls

theorem Untouched.trans {c' c'' : Connection} (h : Untouched c c') (h' : Untouched c' c'') :
    Untouched c c'' := ⟨h'.1.trans h.1, h'.2.trans h.2⟩

theorem untouched_append {calls : List Entry} {c' : Connection} (hcalls : c'.calls = c.calls ++ calls)
    (h : ∀ entry ∈ calls, inflateInput entry = none ∧ compressedPayload entry = none) :
    Untouched c c' := by
  constructor
  · rw [hcalls, inflateInputs, List.filterMap_append, inflateInputs,
      List.filterMap_eq_nil_iff.mpr fun entry hentry => (h entry hentry).1, List.append_nil]
  · rw [hcalls, compressedPayloads, List.filterMap_append, compressedPayloads,
      List.filterMap_eq_nil_iff.mpr fun entry hentry => (h entry hentry).2, List.append_nil]

theorem untouched_record {entry : Entry} {c' : Connection} (hcalls : c'.calls = c.calls ++ [entry])
    (hinput : inflateInput entry = none) (hpayload : compressedPayload entry = none) :
    Untouched c c' := by
  refine untouched_append hcalls fun entry' hentry => ?_
  rw [List.mem_singleton.mp hentry]
  exact ⟨hinput, hpayload⟩

theorem Sends.untouched {c c' : Connection} (h : Sends w c c') : Untouched c c' := by
  obtain ⟨out, calls, rfl, -, hcalls⟩ := h.frame
  refine untouched_append rfl fun entry hentry => ?_
  obtain ⟨input, hinput⟩ := hcalls entry hentry
  constructor
  · rw [inflateInput, hinput]
  · rw [compressedPayload, hinput]

theorem Answer.untouched {c' : Connection} (h : Answer w c c') : Untouched c c' := by
  cases h with
  | write hwrite =>
      cases hwrite with
      | send hsend => exact Sends.untouched (ReflTransGen.single hsend)
      | _ => exact ⟨rfl, rfl⟩
  | handle | openFile => exact untouched_record rfl rfl rfl
  | setHandler | respond | awaitKey => exact ⟨rfl, rfl⟩
  | connect hstate hhandler hverb hcalls hout hsends =>
      have hsent := Untouched.trans (c := c) (untouched_record rfl rfl rfl) hsends.untouched
      exact hsent

theorem Serve.untouched {c' : Connection} (h : Serve w c c') : Untouched c c' := by
  cases h with
  | answer hanswer => exact hanswer.untouched
  | initialise => exact untouched_record rfl rfl rfl
  | create | buffer => exact ⟨rfl, rfl⟩

theorem Serves.untouched {c c' : Connection} (h : Serves w c c') : Untouched c c' :=
  invariant_of_steps (Untouched c) (fun _ _ hc hstep => hc.trans (Serve.untouched hstep)) h ⟨rfl, rfl⟩

theorem Thrown.untouched {e : Exn} {c' : Connection} (h : Thrown e c c') : Untouched c c' := by
  cases h with
  | fault f => exact ⟨rfl, rfl⟩
  | range e path hstate hrequest hcalls hrange => exact untouched_record rfl rfl rfl

/-- An exception leaves the connection in a state in which it reads a request. -/
theorem Thrown.reading {e : Exn} {c' : Connection} (h : Thrown e c c') :
    c'.state = .readingHeaders ∨ Faulted e c' := by
  cases h with
  | fault f => exact Or.inr ⟨f, rfl⟩
  | range e path hstate hrequest hcalls hrange => exact Or.inl hstate

/-- What is served does not touch the decompressor, even if it throws. -/
theorem untouched_of_serves {α : Type} {m : ConnM α} (h : Steps (Serve w) Thrown m c) :
    Ends m c (fun _ c' => Untouched c c') fun e c' =>
      Untouched c c' ∧ (c'.state = .readingHeaders ∨ Faulted e c') :=
  Ends.mono h (fun _ _ => Serves.untouched) fun _ _ ⟨_, hsteps, hlast⟩ =>
    ⟨(Serves.untouched hsteps).trans hlast.untouched, hlast.reading⟩

/-! ### Taking frames -/

/-- The decompressor is not touched, nor what the frames depend on. -/
structure Idle (c c' : Connection) : Prop where
  state : c'.state = c.state
  deflate : c'.perMessageDeflate = c.perMessageDeflate
  inBuf : c'.inBuf = c.inBuf
  closed : c.closed = true → c'.closed = true
  untouched : Untouched c c'

theorem Idle.refl (c : Connection) : Idle c c := ⟨rfl, rfl, rfl, id, rfl, rfl⟩

theorem Idle.trans {c' c'' : Connection} (h : Idle c c') (h' : Idle c' c'') : Idle c c'' where
  state := h'.state.trans h.state
  deflate := h'.deflate.trans h.deflate
  inBuf := h'.inBuf.trans h.inBuf
  closed := h'.closed ∘ h.closed
  untouched := h.untouched.trans h'.untouched

theorem Sends.idle {c c' : Connection} (h : Sends w c c') : Idle c c' where
  state := h.state_eq
  deflate := h.deflate_eq
  inBuf := h.sameInput.1
  closed := h.closed
  untouched := h.untouched

theorem idle_record {entry : Entry} (hinput : inflateInput entry = none)
    (hpayload : compressedPayload entry = none) : Idle c { c with calls := c.calls ++ [entry] } :=
  ⟨rfl, rfl, rfl, id, untouched_record rfl hinput hpayload⟩

theorem closeInternal_idle (c : Connection) :
    Ends closeInternal c (fun _ c' => Idle c c' ∧ c'.closed = true) fun _ _ => False := by
  rw [closeInternal, ends_liftOut]
  refine (Output.closeInternal_closes c.out).mono fun _ out hout => ⟨?_, hout.2⟩
  exact ⟨rfl, rfl, rfl, fun _ => hout.2, rfl, rfl⟩

theorem callHandler_idle {call : Call} (react : List Entry → List WsCall)
    (hinput : inflateInput ⟨call, c.out⟩ = none) (hpayload : compressedPayload ⟨call, c.out⟩ = none) :
    Ends (callHandler w call react) c (fun _ c' => Idle c c') fun _ _ => False :=
  (callHandler_ends call react c).mono
    (fun _ _ hsends => (idle_record hinput hpayload).trans hsends.idle) fun _ _ => id

theorem handleWebSocketTextMessage_idle (message : Bytes) :
    Ends (handleWebSocketTextMessage w message) c (fun _ c' => Idle c c') fun _ _ => False := by
  rw [handleWebSocketTextMessage, ends_bind, ends_get]
  cases c.webSocketHandler with
  | none => exact Idle.refl c
  | some handler => exact callHandler_idle _ rfl rfl

theorem handleWebSocketBinaryMessage_idle (message : Bytes) :
    Ends (handleWebSocketBinaryMessage w message) c (fun _ c' => Idle c c') fun _ _ => False := by
  rw [handleWebSocketBinaryMessage, ends_bind, ends_get]
  cases c.webSocketHandler with
  | none => exact Idle.refl c
  | some handler => exact callHandler_idle _ rfl rfl

/-- The loop goes on behind every frame that does not close the connection. -/
theorem dispatchMessage_idle (messageState : MessageState) (message : Bytes) :
    Ends (dispatchMessage w messageState message) c
      (fun goOn c' => Idle c c' ∧ match goOn with
        | none => c'.closed = true
        | some true => messageState ≠ .error ∧ messageState ≠ .close ∧ messageState ≠ .noMessage
        | some false => messageState = .noMessage)
      fun _ _ => False := by
  cases messageState with
  | noMessage => exact ⟨Idle.refl c, rfl⟩
  | pong => exact ⟨Idle.refl c, by simp⟩
  | textMessage =>
      rw [dispatchMessage, ends_bind]
      exact (handleWebSocketTextMessage_idle _).mono (fun _ _ h => ⟨h, by simp⟩) fun _ _ => id
  | binaryMessage =>
      rw [dispatchMessage, ends_bind]
      exact (handleWebSocketBinaryMessage_idle _).mono (fun _ _ h => ⟨h, by simp⟩) fun _ _ => id
  | ping =>
      rw [dispatchMessage, ends_bind]
      exact (sendHybi_sends _ _ c).mono (fun _ _ h => ⟨Sends.idle h, by simp⟩) fun _ _ => id
  | error | close =>
      rw [dispatchMessage, ends_bind]
      exact (closeInternal_idle c).mono (fun _ _ h => h) fun _ _ => id

/-- The connection once the payload of a message has been handed to `inflate`, if it is compressed. -/
def handed (decoded : Decoded) (c : Connection) : Connection :=
  if decoded.deflateNeeded then
    { c with calls := c.calls ++ [⟨.inflate decoded.messageOut, c.out⟩] }
  else c

theorem inflateMessage_idle (decoded : Decoded) (hdeflate : c.perMessageDeflate = true) :
    Ends (inflateMessage w decoded) c
      (fun message c' => Idle (handed decoded c) c' ∧ (message = none → c'.closed = true))
      fun _ _ => False := by
  rw [inflateMessage, handed, ends_ite]
  refine ⟨fun hneeded => ?_, fun hplain => ?_⟩
  · rw [if_pos hneeded, ends_bind, ends_get, ends_ite]
    refine ⟨fun _ => ?_, fun hnot => absurd hdeflate hnot⟩
    rw [record, ends_bind, ends_modify, ends_bind, ends_get]
    generalize w.inflate _ decoded.messageOut = inflated
    cases inflated with
    | none =>
        dsimp only
        rw [ends_bind]
        exact (closeInternal_idle _).mono (fun _ _ h => ⟨h.1, fun _ => h.2⟩) fun _ _ => id
    | some decompressed => exact ⟨Idle.refl _, by simp⟩
  · rw [if_neg hplain]
    exact ⟨Idle.refl c, by simp⟩

/-- What has been handed to `inflate` is the compressed payloads taken. -/
def Even (c : Connection) : Prop := inflateInputs c.calls = compressedPayloads c.calls

theorem Untouched.even {c' : Connection} (h : Untouched c c') (hc : Even c) : Even c' :=
  h.1.trans (hc.trans h.2.symm)

/-- A frame that is taken and decompressed if need be. -/
theorem even_handed {frame : Bytes} {f : Frame} {size messageStart : Nat} {messageState : MessageState}
    (hc : Even c) (hscan : scan frame = .frame f size) :
    Even (handed ⟨messageState, f.payload, f.compressed, messageStart⟩
      { c with calls := c.calls ++ [⟨.frame frame, c.out⟩] }) := by
  have hpayload : compressedPayload ⟨.frame frame, c.out⟩ =
      if f.compressed then some f.payload else none := by
    rw [compressedPayload]
    dsimp only
    rw [hscan]
  have hinput : inflateInput ⟨.frame frame, c.out⟩ = none := rfl
  unfold Even inflateInputs compressedPayloads at hc
  unfold Even inflateInputs compressedPayloads handed
  cases hcompressed : f.compressed with
  | false =>
      rw [hcompressed] at hpayload
      simp [hc, hpayload, hinput]
  | true =>
      rw [hcompressed] at hpayload
      have hinput' : inflateInput ⟨.inflate f.payload, c.out⟩ = some f.payload := rfl
      have hpayload' : compressedPayload ⟨.inflate f.payload, c.out⟩ = none := rfl
      simp [hc, hpayload, hinput, hinput', hpayload']

/-- The loop has taken the complete frames of `inBuf` up to `messageEnd`, or closed the connection. -/
structure Taken (inBuf : Bytes) (c : Connection) (messageEnd : Option Nat) (c' : Connection) : Prop where
  state : c'.state = c.state
  deflate : c'.perMessageDeflate = c.perMessageDeflate
  input : c'.inBuf = c.inBuf
  even : Even c'
  rest : match messageEnd with
    | none => c'.closed = true
    | some messageEnd => scan (inBuf.drop messageEnd) = .incomplete

theorem Taken.after {inBuf : Bytes} {messageEnd : Option Nat} {c₁ c' : Connection}
    (h : Taken inBuf c₁ messageEnd c') (hidle : Idle c c₁) : Taken inBuf c messageEnd c' :=
  ⟨h.state.trans hidle.state, h.deflate.trans hidle.deflate, h.input.trans hidle.inBuf, h.even, h.rest⟩

theorem handed_fields (decoded : Decoded) (c : Connection) :
    (handed decoded c).state = c.state ∧ (handed decoded c).perMessageDeflate = c.perMessageDeflate ∧
      (handed decoded c).inBuf = c.inBuf := by
  rw [handed]
  split_ifs <;> exact ⟨rfl, rfl, rfl⟩

/-- The rest of a turn, once the frame is taken. -/
theorem turn_taken {inBuf : Bytes} {decoded : Decoded} {fuel : Nat}
    (hdeflate : c.perMessageDeflate = true) (heven : Even (handed decoded c))
    (hnone : decoded.messageState = .noMessage → scan (inBuf.drop decoded.messageStart) = .incomplete)
    (hnext : ∀ c₁ : Connection, c₁.perMessageDeflate = true → Even c₁ → decoded.messageState ≠ .error →
      decoded.messageState ≠ .close → decoded.messageState ≠ .noMessage →
      Ends (hybiLoop w inBuf fuel decoded.messageStart) c₁ (Taken inBuf c₁) Faulted) :
    Ends (hybiTurn w inBuf fuel decoded) c (Taken inBuf c) Faulted := by
  obtain ⟨hstate, hsame, hinBuf⟩ := handed_fields decoded c
  rw [hybiTurn, ends_bind]
  refine (inflateMessage_idle decoded hdeflate).mono (fun message c₁ hc₁ => ?_) fun _ _ => False.elim
  obtain ⟨hidle, hclosed⟩ := hc₁
  have taken : ∀ {messageEnd : Option Nat} {c₂ c₃ : Connection}, Idle c₁ c₂ →
      Taken inBuf c₂ messageEnd c₃ → Taken inBuf c messageEnd c₃ := by
    intro messageEnd c₂ c₃ hidle₂ htaken
    obtain ⟨hstate', hdeflate', hinBuf', heven', hrest⟩ := htaken.after (hidle.trans hidle₂)
    exact ⟨hstate'.trans hstate, hdeflate'.trans hsame, hinBuf'.trans hinBuf, heven', hrest⟩
  have heven₁ : ∀ {c₂ : Connection}, Idle c₁ c₂ → Even c₂ := fun hidle₂ =>
    (hidle.trans hidle₂).untouched.even heven
  cases message with
  | none => exact taken (Idle.refl c₁) ⟨rfl, rfl, rfl, heven₁ (Idle.refl c₁), hclosed rfl⟩
  | some message =>
      dsimp only
      rw [ends_bind]
      refine (dispatchMessage_idle _ _).mono (fun goOn c₂ hc₂ => ?_) fun _ _ => False.elim
      obtain ⟨hidle₂, hgoOn⟩ := hc₂
      rcases goOn with - | - | -
      · exact taken hidle₂ ⟨rfl, rfl, rfl, heven₁ hidle₂, hgoOn⟩
      · exact taken hidle₂ ⟨rfl, rfl, rfl, heven₁ hidle₂, hnone hgoOn⟩
      · have hdeflate₂ : c₂.perMessageDeflate = true :=
          hidle₂.deflate.trans (hidle.deflate.trans (hsame.trans hdeflate))
        obtain ⟨herror, hclose, hsome⟩ := hgoOn
        exact (hnext c₂ hdeflate₂ (heven₁ hidle₂) herror hclose hsome).mono (fun _ _ => taken hidle₂)
          fun _ _ => id

theorem hybiLoop_taken {inBuf : Bytes} (fuel messageStart : Nat)
    (hfuel : inBuf.length < fuel + messageStart) (hbetween : EndsBetween (inBuf.drop messageStart))
    (hdeflate : c.perMessageDeflate = true) (heven : Even c) :
    Ends (hybiLoop w inBuf fuel messageStart) c (Taken inBuf c) Faulted := by
  induction fuel generalizing messageStart c with
  | zero =>
      have hdrop : inBuf.drop messageStart = [] := List.drop_eq_nil_of_le (by omega)
      refine ⟨rfl, rfl, rfl, heven, ?_⟩
      dsimp only
      rw [hdrop]
      rfl
  | succ fuel ih =>
      obtain ⟨hmid, hbehind⟩ := endsBetween_iff.mp hbetween
      rw [hybiLoop]
      cases hdecode : decodeNextMessage inBuf messageStart [] false with
      | error f => exact ends_fault.mpr ⟨f, rfl⟩
      | ok decoded =>
          dsimp only
          rw [ends_ite]
          rcases decodeNextMessage_ok hdecode with ⟨-, rfl⟩ | ⟨hscan, -⟩ | ⟨f, size, hscan, rfl⟩
          · refine ⟨fun hmoved => absurd hmoved (Nat.lt_irrefl _), fun _ => ?_⟩
            apply turn_taken hdeflate
            · exact heven
            · intro hnone
              cases hnone
            · intro c₁ _ _ herror
              exact absurd rfl herror
          · have hreadable : ¬ LengthCutOff inBuf messageStart := by
              intro hcut
              rw [decodeNextMessage_cutOff [] false hcut] at hdecode
              cases hdecode
            rw [decodeNextMessage_between hscan hreadable hmid] at hdecode
            injection hdecode with hdecode
            subst hdecode
            refine ⟨fun hmoved => absurd hmoved (Nat.lt_irrefl _), fun _ => ?_⟩
            apply turn_taken hdeflate
            · exact heven
            · exact fun _ => hscan
            · intro c₁ _ _ _ _ hsome
              exact absurd rfl hsome
          · have hsize := scan_size hscan
            have htaken : (inBuf.take (messageStart + size)).drop messageStart =
                (inBuf.drop messageStart).take size := by
              rw [List.drop_take, Nat.add_sub_cancel_left]
            refine ⟨fun _ => ?_, fun hnot => absurd (by dsimp only; omega) hnot⟩
            dsimp only
            rw [htaken, record, ends_bind, ends_modify]
            refine Ends.mono (turn_taken hdeflate (even_handed heven (scan_take hscan)) ?_ ?_)
              (fun messageEnd c' h => ?_) fun _ _ => id
            · intro hnone
              exact absurd hnone (messageStateOf_ne_noMessage _)
            · intro c₁ hdeflate₁ heven₁ herror hclose _
              have hpasses : Passes (inBuf.drop messageStart) := ⟨f, size, hscan, herror, hclose⟩
              have hrest := hbehind f size hscan hpasses
              rw [List.drop_drop] at hrest
              exact ih _ (by dsimp only; omega) hrest hdeflate₁ heven₁
            · exact ⟨h.state, h.deflate, h.input, h.even, h.rest⟩

/-- The complete frames have been taken, and the compressed ones decompressed. -/
structure Settled (c : Connection) : Prop where
  even : (c.state = .handlingHybiWebSocket → c.perMessageDeflate = true) → Even c
  rest : c.state = .handlingHybiWebSocket → c.perMessageDeflate = true → c.closed = false →
    Uncompressed c.inBuf

theorem Settled.idle {c' : Connection} (hc : Settled c) (h : Idle c c') : Settled c' where
  even hnegotiated := by
    rw [h.state, h.deflate] at hnegotiated
    exact h.untouched.even (hc.even hnegotiated)
  rest hstate hdeflate hopen := by
    rw [h.state] at hstate
    rw [h.deflate] at hdeflate
    rw [h.inBuf]
    refine hc.rest hstate hdeflate ?_
    cases hclosed : c.closed with
    | false => rfl
    | true => exact (h.closed hclosed).symm.trans hopen

theorem Even.settled (h : Even c) (hrest : c.state ≠ .handlingHybiWebSocket ∨ c.closed = true) :
    Settled c where
  even _ := h
  rest hstate _ hopen := by
    rcases hrest with hother | hclosed
    · exact absurd hstate hother
    · rw [hclosed] at hopen
      cases hopen

theorem closeIfTooLong_idle (c : Connection) :
    Ends closeIfTooLong c (fun _ c' => Idle c c') fun _ _ => False := by
  rw [closeIfTooLong, ends_bind, ends_get, ends_ite]
  exact ⟨fun _ => (closeInternal_idle c).mono (fun _ _ h => h.1) fun _ _ => id, fun _ => Idle.refl c⟩

theorem handleHybiWebSocket_settled (hbetween : EndsBetween c.inBuf) (hdeflate : c.perMessageDeflate = true)
    (heven : Even c) : Holds Settled (handleHybiWebSocket w) c := by
  rw [Holds, handleHybiWebSocket, ends_bind, ends_get, ends_ite]
  refine ⟨fun _ => ?_, fun hempty => ?_⟩
  · rw [ends_bind]
    have hloop := hybiLoop_taken (w := w) (c.inBuf.length + 1) 0 (by omega) hbetween hdeflate heven
    refine hloop.mono (fun messageEnd c' h => ?_) fun _ _ => Or.inr
    cases messageEnd with
    | none => exact h.even.settled (Or.inr h.rest)
    | some numBytesDecoded =>
        dsimp only
        rw [ends_bind, ends_modify]
        refine (closeIfTooLong_idle _).mono (fun _ _ => Settled.idle ?_) fun _ _ => False.elim
        refine ⟨fun _ => h.even, fun _ _ _ => ?_⟩
        dsimp only
        rw [h.input]
        exact uncompressed_of_incomplete h.rest
  · refine ⟨fun _ => heven, fun _ _ _ => ?_⟩
    rw [not_not.mp hempty]
    exact uncompressed_of_incomplete rfl

/-! ### Taking requests -/

theorem processHeaders_untouched (last : Nat) (hstate : c.state = .readingHeaders)
    (htaken : JustTaken c.calls c.out) :
    Ends (processHeaders w last) c (fun _ c' => Untouched c c') fun e c' =>
      Untouched c c' ∧ (c'.state = .readingHeaders ∨ Faulted e c') := by
  rw [processHeaders, ends_bind, ends_get]
  cases RequestParser.block.run (c.inBuf.take last) with
  | ok parsed memory =>
      dsimp only
      rw [ends_bind, ends_set]
      exact untouched_of_serves (processParsed_serves _ _ _ hstate htaken)
  | error stop memory =>
      cases stop with
      | fault f => exact ends_fault.mpr ⟨⟨rfl, rfl⟩, Or.inr ⟨f, rfl⟩⟩
      | reject responseCode reason =>
          dsimp only
          rw [ends_bind, ends_set]
          exact untouched_of_serves (serves_of_answers (sendError_answers _ _ _))

/-- A turn that does not go on has not become a WebSocket, or has closed the connection. -/
theorem handleHeaders_untouched (hstate : c.state = .readingHeaders) :
    Ends (handleHeaders w) c
      (fun goOn c' => Untouched c c' ∧ if goOn then c'.inBuf.length < c.inBuf.length
        else c'.state ≠ .handlingHybiWebSocket ∨ c'.closed = true)
      fun e c' => Untouched c c' ∧ (c'.state = .readingHeaders ∨ Faulted e c') := by
  rw [handleHeaders, ends_bind, ends_get]
  cases hfind : find (crlf ++ crlf) c.inBuf with
  | none =>
      dsimp only
      rw [ends_ite]
      refine ⟨fun _ => ?_, fun _ => ⟨⟨rfl, rfl⟩, Or.inl (by simp [hstate])⟩⟩
      rw [ends_bind, sendUnsupportedError, sendError, ends_bind, ends_get, ends_ite]
      refine ⟨fun _ => ends_fault.mpr ⟨⟨rfl, rfl⟩, Or.inr ⟨_, rfl⟩⟩, fun _ => ?_⟩
      rw [ends_liftOut]
      exact After.of_forall fun _ out => ⟨⟨rfl, rfl⟩, Or.inl (by simp [hstate])⟩
  | some i =>
      have hlength := length_of_find hfind (by decide)
      rw [show (crlf ++ crlf).length = 4 from rfl] at hlength
      have hrecord : ∀ out, Untouched c
          { c with calls := c.calls ++ [⟨.headers (c.inBuf.take (i + 4)), out⟩] } := fun out =>
        untouched_record rfl rfl rfl
      dsimp only
      rw [record, ends_bind, ends_modify, ends_bind]
      have hprocess := @processHeaders_untouched w
        { c with calls := c.calls ++ [⟨.headers (c.inBuf.take (i + 4)), c.out⟩] } (i + 2)
        hstate (justTaken_concat rfl)
      refine (hprocess.and (processHeaders_input hstate (justTaken_concat rfl))).mono ?_ ?_
      · rintro accepted c₁ ⟨huntouched, -, memory, hmemory, hinBuf⟩
        have htouched := (hrecord c.out).trans huntouched
        rw [ends_ite]
        refine ⟨fun _ => ?_, fun _ => ?_⟩
        · rw [ends_bind, ends_modify, ends_pure]
          refine ⟨htouched, ?_⟩
          rw [if_pos rfl, List.length_drop, hinBuf, List.length_append, hmemory, List.length_take,
            List.length_drop]
          dsimp only
          omega
        · rw [ends_bind]
          refine (closeInternal_idle c₁).mono (fun _ c₂ hclose => ?_) fun _ _ => False.elim
          exact ⟨htouched.trans hclose.1.untouched, Or.inr hclose.2⟩
      · rintro e c₁ ⟨⟨huntouched, hreading⟩, -⟩
        exact ⟨(hrecord c.out).trans huntouched, hreading⟩

/-- A request that does not ask for a WebSocket is being answered. -/
structure Unconnected (request : PageRequest) (c : Connection) : Prop where
  answered : c.request = some request
  state : c.state ≠ .handlingHybiWebSocket
  handled : ∀ entry ∈ c.calls.getLast?, ∀ request', entry.call = .handle request' → request' = request

theorem Unconnected.answer {request : PageRequest} {c' : Connection} (h : Unconnected request c)
    (hverb : request.verb ≠ .webSocket) (hstep : Answer w c c') : Unconnected request c' := by
  have recorded : ∀ {entry : Entry} {c₁ : Connection}, c₁.request = c.request → c₁.state = c.state →
      c₁.calls = c.calls ++ [entry] →
      (∀ request', entry.call = .handle request' → request' = request) → Unconnected request c₁ := by
    intro entry c₁ hrequest hstate hcalls hhandle
    refine ⟨hrequest.trans h.answered, hstate ▸ h.state, fun entry' hentry => ?_⟩
    rw [hcalls, List.getLast?_concat] at hentry
    injection hentry with hentry
    exact hentry ▸ hhandle
  cases hstep with
  | write hwrite =>
      cases hwrite with
      | send hsend =>
          cases hsend with
          | output hop => exact ⟨h.answered, h.state, h.handled⟩
          | deflate input => exact recorded rfl rfl rfl fun _ hcall => by cases hcall
      | encoding | chunk => exact ⟨h.answered, h.state, h.handled⟩
      | headers | body | finish => exact ⟨h.answered, by simp, h.handled⟩
  | setHandler => exact ⟨h.answered, h.state, h.handled⟩
  | handle hstate hrequest htaken =>
      refine recorded rfl rfl rfl fun request' hcall => ?_
      injection hcall with hcall
      rw [← hcall]
      exact Option.some.inj (hrequest.symm.trans h.answered)
  | openFile => exact recorded rfl rfl rfl fun _ hcall => by cases hcall
  | respond | awaitKey => exact ⟨h.answered, by simp, h.handled⟩
  | connect hstate hhandler hupgrade hcalls hout hsends =>
      have hlast := congrArg List.getLast? hcalls
      rw [List.getLast?_concat] at hlast
      rw [h.handled _ hlast _ rfl] at hupgrade
      exact absurd hupgrade hverb

/-- A request that does not ask for a WebSocket does not get one. -/
theorem handlePageRequest_unconnected {request : PageRequest} (hstate : c.state = .readingHeaders)
    (htaken : JustTaken c.calls c.out) (hc : Unconnected request c) (hverb : request.verb ≠ .webSocket) :
    Ends (handlePageRequest w) c (fun _ c' => c'.state ≠ .handlingHybiWebSocket) fun _ _ => True :=
  Ends.mono (handlePageRequest_answers hstate htaken)
    (fun _ _ hsteps => (invariant_of_steps (Unconnected request)
      (fun _ _ h hstep => Unconnected.answer h hverb hstep) hsteps hc).state) fun _ _ _ => trivial

theorem settled_of_reading {e : Exn} {c' : Connection} (hc : Even c)
    (h : Untouched c c' ∧ (c'.state = .readingHeaders ∨ Faulted e c')) : Settled c' ∨ Faulted e c' := by
  obtain ⟨huntouched, hreading | hfault⟩ := h
  · exact Or.inl ((huntouched.even hc).settled (Or.inl (by simp [hreading])))
  · exact Or.inr hfault

/-- Behind the body of a request, the turn ends. -/
theorem handleBufferingPostData_settled (hstate : c.state = .bufferingPostData) (hc : Even c)
    (hbody : ∀ request request' inBuf, c.request = some request →
      request.consumeContent c.inBuf = some (request', inBuf) → request'.verb = .webSocket →
      Uncompressed inBuf) : Holds Settled (handleBufferingPostData w) c := by
  rw [Holds, handleBufferingPostData, ends_bind, ends_get, ends_bind, theRequest, ends_bind, ends_get]
  cases hrequest : c.request with
  | none => exact ends_fault.mpr (Or.inr ⟨_, rfl⟩)
  | some request =>
      rw [ends_pure]
      cases hconsume : request.consumeContent c.inBuf with
      | none => exact hc.settled (Or.inl (by simp [hstate]))
      | some consumed =>
          obtain ⟨request', inBuf⟩ := consumed
          dsimp only
          rw [Connection.record, ends_bind, ends_modify, ends_bind, ends_modify]
          have hpage : ∀ c₁ : Connection, c₁.state = .readingHeaders → c₁.inBuf = inBuf → Even c₁ →
              JustTaken c₁.calls c₁.out → Unconnected request' c₁ → Holds Settled (do
                if !(← handlePageRequest w) then
                  closeInternal) c₁ := by
            intro c₁ hreading hinBuf heven htaken hunconnected
            have hanswers := handlePageRequest_answers (w := w) hreading htaken
            have huntouched := untouched_of_serves (serves_of_answers hanswers)
            have hsettled : Holds Settled (handlePageRequest w) c₁ := by
              by_cases hverb : request'.verb = .webSocket
              · refine (huntouched.and (sameInput_of_answers hanswers)).mono ?_
                  fun _ _ h => settled_of_reading heven h.1
                rintro accepted c₂ ⟨hsame, hinput⟩
                refine ⟨fun _ => hsame.even heven, fun _ _ _ => ?_⟩
                rw [hinput.1, hinBuf]
                exact hbody request request' inBuf hrequest hconsume hverb
              · refine (huntouched.and
                  (handlePageRequest_unconnected hreading htaken hunconnected hverb)).mono ?_
                  fun _ _ h => settled_of_reading heven h.1
                rintro accepted c₂ ⟨hsame, hother⟩
                exact (hsame.even heven).settled (Or.inl hother)
            refine hsettled.bind (fun _ => id) fun accepted c₂ hc₂ => ?_
            rw [Holds, ends_ite]
            refine ⟨fun _ => ?_, fun _ => hc₂⟩
            exact (closeInternal_idle c₂).mono (fun _ _ h => hc₂.idle h.1) fun _ _ => False.elim
          have hrecorded : Untouched c
              { c with calls := c.calls ++ [⟨.content request'.content, c.out⟩] } :=
            untouched_record rfl rfl rfl
          refine hpage _ rfl rfl (hrecorded.even hc) (justTaken_concat rfl) ⟨rfl, by simp, ?_⟩
          intro entry hentry request'' hcall
          rw [List.getLast?_concat] at hentry
          injection hentry with hentry
          rw [← hentry] at hcall
          cases hcall

theorem handleWebSocketKey3_settled (hstate : c.state = .readingWebSocketKey3) (hc : Even c) :
    Holds Settled (handleWebSocketKey3 w) c := by
  rw [Holds, handleWebSocketKey3, ends_bind, ends_get, ends_ite]
  refine ⟨fun _ => ?_, fun _ => hc.settled (Or.inl (by simp [hstate]))⟩
  rw [ends_bind, theRequest, ends_bind, ends_get]
  cases c.request with
  | none => exact ends_fault.mpr (Or.inr ⟨_, rfl⟩)
  | some request =>
      rw [ends_pure]
      dsimp only
      rw [Connection.record, ends_bind, ends_modify, ends_bind, ends_liftOut]
      refine After.of_forall fun _ out => ?_
      have hstarted : ∀ c₁ : Connection, c₁.state = .handlingHixieWebSocket →
          c₁.calls = c.calls ++ [⟨.key (c.inBuf.take 8), c.out⟩] → Settled c₁ := by
        intro c₁ hhixie hcalls
        have huntouched : Untouched c c₁ := untouched_record hcalls rfl rfl
        exact (huntouched.even hc).settled (Or.inl (by simp [hhixie]))
      rw [startHixie, ends_bind, ends_modify, ends_bind, ends_get]
      dsimp only
      cases c.webSocketHandler with
      | none => exact hstarted _ rfl rfl
      | some handler =>
          refine (callHandler_idle _ ?_ ?_).mono (fun _ _ => Settled.idle ?_) fun _ _ => False.elim
          · rfl
          · rfl
          · exact hstarted _ rfl rfl

/-- Only a Hybi connection takes frames, and decompresses them. -/
theorem Move.untouched {c' : Connection} (h : Move w c c') (hstate : c.state ≠ .handlingHybiWebSocket) :
    Untouched c c' := by
  cases h with
  | serve hserve => exact hserve.untouched
  | headers | content | key | connect | message | cancel => exact untouched_record rfl rfl rfl
  | overwrite | drop | connectNobody | receive | enlarge | vanish => exact ⟨rfl, rfl⟩
  | frame frame hhybi => exact absurd hhybi hstate
  | inflate input hhybi => exact absurd hhybi hstate
  | data hwebSocket hhandler htaken hcall =>
      obtain ⟨message, rfl | rfl⟩ := hcall <;> exact untouched_record rfl rfl rfl
  | disconnect halive hresponse hhandler hsends hout =>
      have hsent := Untouched.trans (c := c) (untouched_record rfl rfl rfl) hsends.untouched
      exact hsent

/-- Compression is negotiated before the handshake. -/
theorem Move.deflate_eq {c' : Connection} (h : Move w c c') (hstate : IsWebSocket c) :
    c'.perMessageDeflate = c.perMessageDeflate := by
  cases h with
  | serve hserve =>
      cases hserve with
      | answer hanswer =>
          cases hanswer with
          | write hwrite =>
              cases hwrite with
              | send hsend => exact Sends.deflate_eq (ReflTransGen.single hsend)
              | _ => rfl
          | connect hreading hhandler hverb hcalls hout hsends =>
              have hsame := hsends.deflate_eq
              exact hsame
          | _ => rfl
      | initialise hreading =>
          rcases hstate with hhixie | hhybi
          · rw [hreading] at hhixie
            cases hhixie
          · rw [hreading] at hhybi
            cases hhybi
      | create | buffer => rfl
  | disconnect halive hresponse hhandler hsends hout =>
      have hsame := hsends.deflate_eq
      exact hsame
  | _ => rfl

theorem handleHixieWebSocket_settled (hstate : c.state = .handlingHixieWebSocket) (hc : Even c) :
    Holds Settled (handleHixieWebSocket w) c := by
  have taken : ∀ c₁ c₂ : Connection, c₁.state = .handlingHixieWebSocket ∧ Even c₁ → Take w c₁ c₂ →
      c₂.state = .handlingHixieWebSocket ∧ Even c₂ := by
    rintro c₁ c₂ ⟨hstate₁, hc₁⟩ ⟨hmove, -⟩
    exact ⟨(hmove.webSocket (Or.inl hstate₁)).trans hstate₁,
      (hmove.untouched (by simp [hstate₁])).even hc₁⟩
  have took : ∀ {c'}, ReflTransGen (Take w) c c' → c'.state = .handlingHixieWebSocket ∧ Even c' :=
    fun htakes => invariant_of_steps (fun c₁ => c₁.state = .handlingHixieWebSocket ∧ Even c₁) taken htakes
      ⟨hstate, hc⟩
  have settled : ∀ {c' : Connection}, c'.state = .handlingHixieWebSocket ∧ Even c' → Settled c' :=
    fun h => h.2.settled (Or.inl (by simp [h.1]))
  refine Ends.mono (handleHixieWebSocket_takes hstate) (fun _ c' htakes => settled (took htakes)) ?_
  rintro e c' ⟨c₁, htakes, hlast⟩
  cases hlast with
  | fault f => exact Or.inr ⟨f, rfl⟩
  | range e path hreading => exact absurd (hreading.symm.trans (took htakes).1) (by decide)

/-- Without compression, nothing is asked of the frames. -/
theorem handleHybiWebSocket_plain (hstate : c.state = .handlingHybiWebSocket)
    (hplain : c.perMessageDeflate = false) : Holds Settled (handleHybiWebSocket w) c := by
  have taken : ∀ c₁ c₂ : Connection,
      c₁.state = .handlingHybiWebSocket ∧ c₁.perMessageDeflate = false → Take w c₁ c₂ →
      c₂.state = .handlingHybiWebSocket ∧ c₂.perMessageDeflate = false := by
    rintro c₁ c₂ ⟨hstate₁, hplain₁⟩ ⟨hmove, -⟩
    exact ⟨(hmove.webSocket (Or.inr hstate₁)).trans hstate₁,
      (hmove.deflate_eq (Or.inr hstate₁)).trans hplain₁⟩
  have took : ∀ {c'}, ReflTransGen (Take w) c c' →
      c'.state = .handlingHybiWebSocket ∧ c'.perMessageDeflate = false := fun htakes =>
    invariant_of_steps _ taken htakes ⟨hstate, hplain⟩
  refine Ends.mono (handleHybiWebSocket_takes hstate) (fun _ c' htakes => ?_) ?_
  · obtain ⟨hstate', hplain'⟩ := took htakes
    have hnot : c'.perMessageDeflate ≠ true := by simp [hplain']
    exact ⟨fun hnegotiated => absurd (hnegotiated hstate') hnot, fun _ hdeflate => absurd hdeflate hnot⟩
  · rintro e c' ⟨c₁, htakes, hlast⟩
    cases hlast with
    | fault f => exact Or.inr ⟨f, rfl⟩
    | range e path hreading => exact absurd (hreading.symm.trans (took htakes).1) (by decide)

/-! ### Events -/

theorem handleNewDataFrom_settled (fuel : Nat) (hfuel : c.inBuf.length < fuel)
    (hc : (c.state = .handlingHybiWebSocket → c.perMessageDeflate = true) → Even c)
    (hturns : ∀ c', Turns w c c' → Undivided c') : Holds Settled (handleNewDataFrom w fuel) c := by
  induction fuel generalizing c with
  | zero => omega
  | succ fuel ih =>
      have hturn := hturns c (Turns.first c)
      have elsewhere : ∀ {state : State}, c.state = state → state ≠ .handlingHybiWebSocket → Even c :=
        fun hstate hother => hc fun hhybi => absurd (hstate.symm.trans hhybi) hother
      rw [Holds, handleNewDataFrom, ends_bind, ends_get]
      cases hstate : c.state with
      | readingHeaders =>
          have heven := elsewhere hstate (by decide)
          dsimp only
          rw [ends_bind]
          refine ((handleHeaders_untouched hstate).and (ends_run _ _)).mono ?_
            fun _ _ h => settled_of_reading heven h.1
          rintro goOn c₁ ⟨⟨huntouched, hend⟩, hrun⟩
          rw [ends_ite]
          refine ⟨fun hgoOn => ?_, fun hgoOn => ?_⟩
          · subst hgoOn
            have hshorter : c₁.inBuf.length < c.inBuf.length := hend
            exact ih (by omega) (fun _ => huntouched.even heven) fun c' h =>
              hturns c' (Turns.next hstate hrun h)
          · rw [if_neg hgoOn] at hend
            exact (huntouched.even heven).settled hend
      | readingWebSocketKey3 => exact handleWebSocketKey3_settled hstate (elsewhere hstate (by decide))
      | handlingHixieWebSocket => exact handleHixieWebSocket_settled hstate (elsewhere hstate (by decide))
      | handlingHybiWebSocket =>
          cases hdeflate : c.perMessageDeflate with
          | true =>
              exact handleHybiWebSocket_settled (hturn.frames hstate hdeflate) hdeflate
                (hc fun _ => hdeflate)
          | false => exact handleHybiWebSocket_plain hstate hdeflate
      | bufferingPostData =>
          exact handleBufferingPostData_settled hstate (elsewhere hstate (by decide)) (hturn.body hstate)
      | awaitingResponseBegin | sendingResponseHeaders | sendingResponseBody =>
          exact (elsewhere hstate (by decide)).settled (Or.inl (by simp [hstate]))
      | invalid => exact ends_fault.mpr (Or.inr ⟨_, rfl⟩)

theorem handleDataReadyForRead_settled (result : ReadResult) (h : Settled c)
    (hread : ReadsUndivided w (.readable result) c) :
    Holds Settled (handleDataReadyForRead w result) c := by
  rw [Holds, handleDataReadyForRead, ends_bind, ends_get, ends_ite]
  refine ⟨fun hopen => ?_, fun _ => h⟩
  have hopen : c.closed = false := by simpa using hopen
  cases result with
  | error =>
      have hnone := hread hopen
      refine ⟨h.even, fun hstate hdeflate => absurd ⟨hstate, hdeflate⟩ hnone⟩
  | endOfStream =>
      dsimp only
      rw [ends_bind, ends_set]
      refine (closeInternal_idle _).mono (fun _ c' hclose => ⟨fun hnegotiated => ?_, ?_⟩)
        fun _ _ => False.elim
      · rw [hclose.1.state, hclose.1.deflate] at hnegotiated
        exact hclose.1.untouched.even (h.even hnegotiated)
      · intro _ _ hopen'
        rw [hclose.2] at hopen'
        cases hopen'
  | data received =>
      dsimp only
      rw [ends_bind, ends_set, handleNewData, ends_bind, ends_get]
      exact handleNewDataFrom_settled _ (Nat.lt_succ_self _) h.even (hread hopen)

theorem closeFd_idle (c : Connection) :
    Ends (liftOut closeFd) c (fun _ c' => Idle c c') fun _ _ => False := by
  rw [ends_liftOut]
  refine (closeFd_after c.out).mono fun _ out hout => ⟨rfl, rfl, rfl, fun _ => ?_, rfl, rfl⟩
  simp [Connection.closed, Output.closed, hout]

theorem destroy_idle (c : Connection) :
    Ends (destroy w) c (fun _ c' => Idle c c') fun _ _ => False := by
  have vanish : ∀ c₁ : Connection, Idle c c₁ → Ends (do
      liftOut closeFd
      modify fun c => { c with webSocketHandler := none, alive := false } : ConnM Unit) c₁
      (fun _ c' => Idle c c') fun _ _ => False := by
    intro c₁ hidle
    rw [ends_bind]
    refine (closeFd_idle c₁).mono (fun _ c₂ hclosed => ?_) fun _ _ => id
    rw [ends_modify]
    exact (hidle.trans hclosed).trans ⟨rfl, rfl, rfl, id, rfl, rfl⟩
  have cancelled : Ends cancelResponse c (fun _ c' => Idle c c') fun _ _ => False := by
    rw [cancelResponse, ends_bind, ends_get, ends_ite]
    refine ⟨fun _ => ?_, fun _ => Idle.refl c⟩
    rw [Connection.record, ends_bind, ends_modify, ends_modify]
    have hrecorded : Idle c { c with calls := c.calls ++ [⟨.cancel, c.out⟩] } := idle_record rfl rfl
    exact hrecorded.trans ⟨rfl, rfl, rfl, id, rfl, rfl⟩
  rw [destroy, ends_bind]
  refine cancelled.mono (fun _ c₁ hidle => ?_) fun _ _ => id
  rw [ends_bind, ends_get]
  cases c₁.webSocketHandler with
  | none => exact vanish c₁ hidle
  | some handler =>
      dsimp only
      rw [ends_bind]
      exact (callHandler_idle _ rfl rfl).mono (fun _ c₂ hcalled => vanish c₂ (hidle.trans hcalled))
        fun _ _ => id

theorem settled_of_sends {m : ConnM Unit} (hsends : Returns (SendStep w) m) (h : Settled c) :
    Holds Settled m c :=
  Ends.mono (hsends c) (fun _ _ hsteps => h.idle (Sends.idle hsteps)) fun _ _ => False.elim

theorem step_settled (event : Event) (c : Connection) (h : Settled c) (hread : ReadsUndivided w event c) :
    Holds Settled (step w event) c := by
  rw [Holds, step, ends_bind, ends_get]
  cases event with
  | destroy =>
      dsimp only
      rw [ends_ite]
      refine ⟨fun _ => ?_, fun _ => ends_fault.mpr (Or.inr ⟨_, rfl⟩)⟩
      exact (destroy_idle c).mono (fun _ _ hidle => h.idle hidle) fun _ _ => False.elim
  | readable result =>
      dsimp only
      rw [ends_ite]
      exact ⟨fun _ => handleDataReadyForRead_settled result h hread,
        fun _ => ends_fault.mpr (Or.inr ⟨_, rfl⟩)⟩
  | writable =>
      dsimp only
      rw [ends_ite]
      exact ⟨fun _ => settled_of_sends (liftOut_sends Output.handleDataReadyForWrite_runs) h,
        fun _ => ends_fault.mpr (Or.inr ⟨_, rfl⟩)⟩
  | socket call =>
      dsimp only
      rw [ends_ite]
      exact ⟨fun _ => settled_of_sends (wsCall_sends call) h,
        fun _ => ends_fault.mpr (Or.inr ⟨_, rfl⟩)⟩
  | writer call =>
      dsimp only
      rw [ends_ite, ends_ite]
      refine ⟨fun _ => ⟨fun _ => ?_, fun _ => ends_fault.mpr (Or.inr ⟨_, rfl⟩)⟩, fun _ => h⟩
      by_cases hlegal : Legal c.state call
      · have hstate : c.state ≠ .handlingHybiWebSocket := by
          intro hstate
          rw [hstate] at hlegal
          cases call <;> simp [Legal] at hlegal
        have elsewhere : ∀ c₁ c₂ : Connection, c₁.state ≠ .handlingHybiWebSocket → WriteStep w c₁ c₂ →
            c₂.state ≠ .handlingHybiWebSocket := by
          intro c₁ c₂ hother hwrite
          cases hwrite with
          | send hsend => exact (Sends.state_eq (ReflTransGen.single hsend)) ▸ hother
          | encoding | chunk => exact hother
          | headers | body | finish => simp
        have hwrites := writerCall_writes (w := w) call c
        have huntouched := untouched_of_serves (serves_of_answers (answers_of_writes hwrites))
        have heven := h.even fun hhybi => absurd hhybi hstate
        refine (huntouched.and hwrites).mono ?_ fun _ _ hends => settled_of_reading heven hends.1
        rintro - c' ⟨hsame, hsteps⟩
        exact (hsame.even heven).settled
          (Or.inl (invariant_of_steps _ elsewhere hsteps hstate))
      · rw [ends_of_run_ok (writerCall_eq_of_illegal hlegal)]
        exact h

/-- **Inputs of the decompressor.** In every run in which no read fails or ends inside a compressed frame,
`inflate` is handed the payloads of the compressed frames received. -/
theorem run_inflatesExactly {events : List Event} (h : run w events fresh = .ok c)
    (hreads : Throughout w (ReadsUndivided w) events fresh)
    (hstate : c.state = .handlingHybiWebSocket) (hdeflate : c.perMessageDeflate = true) :
    InflatesExactly c := by
  have hfresh : Settled fresh := Even.settled rfl (Or.inl (by decide))
  have hsettled := run_holds step_settled h hfresh hreads
  exact ⟨hsettled.even fun _ => hdeflate, hsettled.rest hstate hdeflate⟩

theorem endsBetween_of_frame {stream : Bytes} {f : Frame} (h : scan stream = .frame f stream.length) :
    EndsBetween stream := by
  refine endsBetween_iff.mpr ⟨fun hmid => ?_, fun f' size hscan _ => ?_⟩
  · rw [MidCompressed, h] at hmid
    cases hmid.1
  · rw [h] at hscan
    injection hscan with _ hsize
    rw [← hsize, List.drop_length]
    intro count _ hmid
    rw [List.drop_nil] at hmid
    obtain ⟨-, b0, b1, rest, hnil, -⟩ := hmid
    cases hnil

/-- A request to upgrade that offers compression. -/
def compressedUpgrade : Bytes :=
  ascii "GET /chat HTTP/1.1\r\nConnection: Upgrade\r\nUpgrade: websocket\r\n"
    ++ ascii "Sec-WebSocket-Version: 13\r\nSec-WebSocket-Extensions: permessage-deflate\r\n\r\n"

theorem compressedUpgrade_size :
    compressedUpgrade ≠ [] ∧ compressedUpgrade.length ≤ readWriteBufferSize := by
  decide +kernel

/-- The same request, with a compressed frame behind it. -/
def upgradeAndFrame : { bytes : Bytes // bytes ≠ [] ∧ bytes.length ≤ readWriteBufferSize } :=
  ⟨compressedUpgrade ++ [0xc1, 0x02, 7, 0], by decide +kernel⟩

/-- A compressed frame in the same read as the handshake. -/
theorem run_inflatesExactly_frame :
    ∃ c, run World.compressing
        [.readable (.data upgradeAndFrame)] fresh = .ok c ∧
      inflateInputs c.calls = [[7, 0]] ∧ InflatesExactly c := by
  have hrun : (do
      let c ← run World.compressing
        [.readable (.data upgradeAndFrame)] fresh
      return decide (c.state = .handlingHybiWebSocket ∧ c.perMessageDeflate = true ∧
        inflateInputs c.calls = [[7, 0]])) = (.ok true : Except Fault Bool) := by
    decide +kernel
  obtain ⟨c, hc, hrun⟩ := ok_of_bind_eq_ok hrun
  injection hrun with hrun
  obtain ⟨hstate, hdeflate, hinputs⟩ := of_decide_eq_true hrun
  refine ⟨c, hc, hinputs, run_inflatesExactly hc ?_ hstate hdeflate⟩
  intro before event after c₀ hsplit hbefore
  obtain ⟨rfl, rfl⟩ : before = [] ∧ event = .readable (.data upgradeAndFrame) := by
    cases before with
    | nil =>
        injection hsplit with hevent
        exact ⟨rfl, hevent.symm⟩
    | cons first before => simp at hsplit
  injection hbefore with hbefore
  subst hbefore
  intro _ c' hturns
  cases hturns with
  | first => exact ⟨fun h => absurd h (by decide), fun h => absurd h (by decide)⟩
  | next hreading hheaders hturns =>
      rename_i c₁
      obtain ⟨hhybi, hinBuf⟩ := (ends_of_run_ok hheaders).mp (by decide +kernel :
        Ends (handleHeaders World.compressing) (afterRead fresh upgradeAndFrame.val)
          (fun _ c₁ => c₁.state = .handlingHybiWebSocket ∧ c₁.inBuf = [0xc1, 0x02, 7, 0])
          fun _ _ => False)
      cases hturns with
      | first =>
          refine ⟨fun _ _ => ?_, fun hbuffering => absurd (hhybi.symm.trans hbuffering) (by decide)⟩
          rw [hinBuf]
          exact endsBetween_of_frame (f := ⟨true, 1, [7, 0]⟩) (by decide)
      | next hreading =>
          rw [hhybi] at hreading
          cases hreading

/-- A read that ends behind the leading bytes of a compressed frame hands nothing to `inflate`, which
is one input too many. -/
theorem not_inflatesExactly_of_partial :
    ∃ c, run World.compressing
        [.readable (.data ⟨compressedUpgrade, by decide +kernel⟩),
          .readable (.data ⟨[0xc1, 0x85], by decide⟩)] fresh = .ok c ∧
      c.state = .handlingHybiWebSocket ∧ c.perMessageDeflate = true ∧ ¬ InflatesExactly c := by
  have hrun : (do
      let c ← run World.compressing
        [.readable (.data ⟨compressedUpgrade, by decide +kernel⟩),
          .readable (.data ⟨[0xc1, 0x85], by decide⟩)] fresh
      return decide (c.state = .handlingHybiWebSocket ∧ c.perMessageDeflate = true ∧
        inflateInputs c.calls = [[]] ∧ compressedPayloads c.calls = []))
      = (.ok true : Except Fault Bool) := by
    decide +kernel
  obtain ⟨c, hc, hrun⟩ := ok_of_bind_eq_ok hrun
  injection hrun with hrun
  obtain ⟨hstate, hdeflate, hinputs, hpayloads⟩ := of_decide_eq_true hrun
  refine ⟨c, hc, hstate, hdeflate, fun hexactly => ?_⟩
  rw [InflatesExactly, hinputs, hpayloads] at hexactly
  cases hexactly.1

end Seasocks.Connection
