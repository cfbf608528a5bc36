import Seasocks.Proof.MessageDecoders
import Seasocks.Proof.Recutting

/-!
# The sizes of messages

A WebSocket connection closes when more than so much of a message waits in its buffer. That limits the
messages it passes on only where the message is not completed by the read that exceeds the limit, and it
turns away a shorter message of which more than so much is read, with what frames it, before its end.
-/

namespace Seasocks

/-- The data of a message that a call passes on. -/
def Call.data : Call → Option Bytes
  | .onText _ data | .onBinary _ data => some data
  | _ => none

namespace Connection

open Program Relation WebSocketFrame HybiPacketDecoder MessageStream

variable {w : World} {c : Connection}

/-! ### What is passed on -/

/-- The messages that have been passed to `onData`. -/
def deliveries (calls : List Entry) : List Bytes := calls.filterMap fun entry => entry.call.data

theorem deliveries_append (calls calls' : List Entry) :
    deliveries (calls ++ calls') = deliveries calls ++ deliveries calls' :=
  List.filterMap_append

theorem deliveries_record (calls : List Entry) {entry : Entry} (h : entry.call.data = none) :
    deliveries (calls ++ [entry]) = deliveries calls := by
  rw [deliveries_append, deliveries, deliveries, List.filterMap_cons, h]
  exact List.append_nil _

/-- What becomes of a message: texts end at a NUL byte. -/
def Message.passed (message : Message) : List Bytes :=
  match message.messageState with
  | .textMessage => [cString message.data]
  | .binaryMessage => [message.data]
  | _ => []

def passedTo (webSocketHandler : Option HandlerId) (messages : List Message) : List Bytes :=
  match webSocketHandler with
  | none => []
  | some _ => messages.flatMap Message.passed

theorem passedTo_append (webSocketHandler : Option HandlerId) (messages messages' : List Message) :
    passedTo webSocketHandler (messages ++ messages') =
      passedTo webSocketHandler messages ++ passedTo webSocketHandler messages' := by
  cases webSocketHandler with
  | none => rfl
  | some handler => exact List.flatMap_append

theorem passedTo_cons (webSocketHandler : Option HandlerId) (message : Message) (messages : List Message) :
    passedTo webSocketHandler (message :: messages) =
      passedTo webSocketHandler [message] ++ passedTo webSocketHandler messages :=
  passedTo_append webSocketHandler [message] messages

/-! ### What the handler does meanwhile -/

/-- What stays while messages are passed on, and what is logged of them. -/
structure Tells (told : List Bytes) (c c' : Connection) : Prop where
  handler : c'.webSocketHandler = c.webSocketHandler
  deliveries : deliveries c'.calls = deliveries c.calls ++ told

theorem Sends.tells {c c' : Connection} (h : Sends w c c') : Tells [] c c' := by
  obtain ⟨out, calls, rfl, -, hcalls⟩ := h.frame
  refine ⟨rfl, ?_⟩
  have hnone : deliveries calls = [] := by
    refine List.filterMap_eq_nil_iff.mpr fun entry hentry => ?_
    obtain ⟨input, hinput⟩ := hcalls entry hentry
    rw [hinput]
    rfl
  rw [deliveries_append, hnone]

theorem callHandler_tells {call : Call} (react : List Entry → List WsCall) {data : Bytes}
    (hcall : call.data = some data) :
    Ends (callHandler w call react) c (fun _ c' => Tells [data] c c') fun _ _ => False := by
  refine (callHandler_ends call react c).mono (fun _ c' hsends => ?_) fun _ _ => id
  have htells := Sends.tells hsends
  have hrecorded : deliveries (c.calls ++ [⟨call, c.out⟩]) = deliveries c.calls ++ [data] := by
    rw [deliveries_append, deliveries, deliveries, List.filterMap_cons, hcall]
    rfl
  refine ⟨htells.handler, ?_⟩
  rw [htells.deliveries, hrecorded, List.append_nil]

theorem dispatchMessage_tells (messageState : MessageState) (data : Bytes) :
    Ends (dispatchMessage w messageState data) c
      (fun _ c' => Tells (passedTo c.webSocketHandler [⟨messageState, data⟩]) c c') fun _ _ => False := by
  have hnothing : ∀ {c' : Connection}, Tells [] c c' → (Message.mk messageState data).passed = [] →
      Tells (passedTo c.webSocketHandler [⟨messageState, data⟩]) c c' := by
    intro c' htells hpassed
    have htold : passedTo c.webSocketHandler [⟨messageState, data⟩] = [] := by
      cases c.webSocketHandler with
      | none => rfl
      | some handler => rw [passedTo, List.flatMap_singleton, hpassed]
    rwa [htold]
  have hsame : Tells [] c c := ⟨rfl, (List.append_nil _).symm⟩
  cases messageState with
  | noMessage | pong => exact hnothing hsame rfl
  | error | close =>
      rw [dispatchMessage, ends_bind, closeInternal, ends_liftOut]
      exact After.of_forall fun _ _ => hnothing ⟨rfl, (List.append_nil _).symm⟩ rfl
  | ping =>
      rw [dispatchMessage, ends_bind]
      exact (sendHybi_sends _ _ c).mono (fun _ _ h => hnothing (Sends.tells h) rfl) fun _ _ => id
  | textMessage =>
      rw [dispatchMessage, handleWebSocketTextMessage, ends_bind, ends_bind, ends_get]
      cases c.webSocketHandler with
      | none => exact hsame
      | some handler => exact callHandler_tells _ rfl
  | binaryMessage =>
      rw [dispatchMessage, handleWebSocketBinaryMessage, ends_bind, ends_bind, ends_get]
      cases c.webSocketHandler with
      | none => exact hsame
      | some handler => exact callHandler_tells _ rfl

/-- Messages have been passed on, to a handler that does not close the connection. -/
structure Passing (inputs told : List Bytes) (c c' : Connection) : Prop where
  undisturbed : Undisturbed c c'
  inBuf : c'.inBuf = c.inBuf
  deflate : c'.perMessageDeflate = c.perMessageDeflate
  inputs : inflateInputs c'.calls = inputs
  tells : Tells told c c'

theorem Passing.trans {inputs inputs' told told' : List Bytes} {c' c'' : Connection}
    (h : Passing inputs told c c') (h' : Passing inputs' told' c' c'') :
    Passing inputs' (told ++ told') c c'' where
  undisturbed := h.undisturbed.trans h'.undisturbed
  inBuf := h'.inBuf.trans h.inBuf
  deflate := h'.deflate.trans h.deflate
  inputs := h'.inputs
  tells := by
    refine ⟨h'.tells.handler.trans h.tells.handler, ?_⟩
    rw [h'.tells.deliveries, h.tells.deliveries, List.append_assoc]

theorem passing_record (c : Connection) (entry : Entry) (hdata : entry.call.data = none)
    (hinput : inflateInput entry = none) :
    Passing (inflateInputs c.calls) [] c { c with calls := c.calls ++ [entry] } where
  undisturbed := ⟨rfl, rfl, Output.Quiet.refl _⟩
  inBuf := rfl
  deflate := rfl
  inputs := by
    rw [inflateInputs, List.filterMap_append, inflateInputs, List.filterMap_cons, hinput]
    exact List.append_nil _
  tells := ⟨rfl, by rw [deliveries_record _ hdata, List.append_nil]⟩

theorem passing_inflate (data : Bytes) :
    Passing (inflateInputs c.calls ++ [data]) [] c
      { c with calls := c.calls ++ [⟨.inflate data, c.out⟩] } where
  undisturbed := ⟨rfl, rfl, Output.Quiet.refl _⟩
  inBuf := rfl
  deflate := rfl
  inputs := List.filterMap_append
  tells := ⟨rfl, by rw [deliveries_record _ rfl, List.append_nil]⟩

/-- The connection has been closed, with messages passed on before. -/
structure Stops (told : List Bytes) (c c' : Connection) : Prop where
  alive : c'.alive = c.alive
  closed : c'.closed = true
  deliveries : deliveries c'.calls = deliveries c.calls ++ told

theorem Passing.stops {inputs told told' : List Bytes} {c' c'' : Connection}
    (h : Passing inputs told c c') (h' : Stops told' c' c'') : Stops (told ++ told') c c'' where
  alive := h'.alive.trans h.undisturbed.2.1
  closed := h'.closed
  deliveries := by rw [h'.deliveries, h.tells.deliveries, List.append_assoc]

theorem closeInternal_stops (c : Connection) :
    Ends closeInternal c (fun _ c' => Stops [] c c') fun _ _ => False := by
  rw [closeInternal, ends_liftOut]
  refine (Output.closeInternal_closes c.out).mono fun _ out hout => ?_
  exact ⟨rfl, hout.2, (List.append_nil _).symm⟩

theorem dispatchMessage_passing (hw : NeverCloses w) (messageState : MessageState) (data : Bytes)
    (c : Connection) :
    Ends (dispatchMessage w messageState data) c
      (fun goOn c' => if messageState = .error ∨ messageState = .close then goOn = none ∧ Stops [] c c'
        else goOn = some (decide (messageState ≠ .noMessage)) ∧
          Passing (inflateInputs c.calls) (passedTo c.webSocketHandler [⟨messageState, data⟩]) c c')
      fun _ _ => False := by
  by_cases hstops : messageState = .error ∨ messageState = .close
  · have hclose : Ends (closeInternal >>= fun _ => pure (none : Option Bool)) c
        (fun goOn c' => goOn = none ∧ Stops [] c c') fun _ _ => False := by
      rw [ends_bind]
      exact (closeInternal_stops c).mono (fun _ _ h => ⟨rfl, h⟩) fun _ _ => id
    simp only [if_pos hstops]
    rcases hstops with rfl | rfl
    · exact hclose
    · exact hclose
  · have hends := dispatchMessage_ends hw messageState data c
    simp only [if_neg hstops] at hends ⊢
    refine Ends.mono (Ends.and (Ends.and hends (dispatchMessage_idle messageState data))
      (dispatchMessage_tells messageState data)) ?_ fun _ _ h => h.1.1
    rintro goOn c' ⟨⟨⟨hgoOn, hundisturbed⟩, hidle, -⟩, htells⟩
    exact ⟨hgoOn, hundisturbed, hidle.inBuf, hidle.deflate, hidle.untouched.1, htells⟩

theorem handleWebSocketTextMessage_passing (hw : NeverCloses w) (data : Bytes) (c : Connection) :
    Ends (handleWebSocketTextMessage w (cString data)) c
      (fun _ c' =>
        Passing (inflateInputs c.calls) (passedTo c.webSocketHandler [⟨.textMessage, data⟩]) c c')
      fun _ _ => False := by
  have hends := dispatchMessage_passing hw .textMessage data c
  rw [dispatchMessage, ends_bind] at hends
  refine hends.mono (fun _ c' h => ?_) fun _ _ => id
  rw [ends_pure, if_neg (by simp)] at h
  exact h.2

/-- A frame is decompressed, if it is compressed. -/
theorem inflateMessage_passing (hinflate : InflatesByInputs w) (messageState : MessageState) (f : Frame)
    (messageStart : Nat) (c : Connection) :
    Ends (inflateMessage w ⟨messageState, f.payload, f.compressed, messageStart⟩) c
      (fun message c' =>
        match if f.compressed && !c.perMessageDeflate then none
          else payloadOf w (inflateInputs c.calls) f with
        | none => message = none ∧ Stops [] c c'
        | some data => message = some data ∧ Passing (inputsWith (inflateInputs c.calls) f) [] c c')
      fun _ _ => False := by
  have hclose : ∀ c' : Connection, Ends (closeInternal >>= fun _ => pure (none : Option Bytes)) c'
      (fun message c'' => message = none ∧ Stops [] c' c'') fun _ _ => False := fun c' => by
    rw [ends_bind]
    exact (closeInternal_stops c').mono (fun _ _ h => ⟨rfl, h⟩) fun _ _ => id
  rw [inflateMessage, inputsWith, payloadOf]
  cases hcompressed : f.compressed with
  | false =>
      simp only [Bool.false_and, Bool.false_eq_true, if_false]
      exact ⟨rfl, ⟨rfl, rfl, Output.Quiet.refl _⟩, rfl, rfl, rfl, rfl, (List.append_nil _).symm⟩
  | true =>
      rw [if_pos rfl, ends_bind, ends_get]
      cases hdeflate : c.perMessageDeflate with
      | false =>
          simp only [Bool.not_false, Bool.and_true, Bool.false_eq_true, if_true, if_false]
          exact hclose c
      | true =>
          have hrecorded := passing_inflate (c := c) f.payload
          have hanswer : w.inflate (c.calls ++ [⟨.inflate f.payload, c.out⟩]) f.payload =
              inflated w (inflateInputs c.calls ++ [f.payload]) f.payload := by
            rw [← hrecorded.inputs]
            exact hinflate _ _
          simp only [record, ends_bind, ends_modify, ends_get, hanswer, inputsWith, hcompressed,
            Bool.not_true, Bool.and_false, Bool.false_eq_true, if_true, if_false]
          cases inflated w (inflateInputs c.calls ++ [f.payload]) f.payload with
          | none => exact (hclose _).mono (fun _ _ h => ⟨h.1, hrecorded.stops h.2⟩) fun _ _ => id
          | some decompressed => exact ⟨rfl, hrecorded⟩

/-! ### The loops -/

theorem passedTo_nil (webSocketHandler : Option HandlerId) : passedTo webSocketHandler [] = [] := by
  cases webSocketHandler <;> rfl

theorem Passing.refl (c : Connection) : Passing (inflateInputs c.calls) [] c c :=
  ⟨Undisturbed.refl c, rfl, rfl, rfl, rfl, (List.append_nil _).symm⟩

/-- What a loop over messages leads to: `left` is what is behind them, `none` after a close. -/
def Follows (decoded : List Message × Option (List Bytes × Bytes)) (c : Connection)
    (left : Option Bytes) (c' : Connection) : Prop :=
  match decoded.2 with
  | none => left = none ∧ Stops (passedTo c.webSocketHandler decoded.1) c c'
  | some (inputs, rest) =>
      left = some rest ∧ Passing inputs (passedTo c.webSocketHandler decoded.1) c c'

theorem Follows.after {decoded : List Message × Option (List Bytes × Bytes)} {inputs : List Bytes}
    {message : Message} {left : Option Bytes} {c₁ c' : Connection} (h : Follows decoded c₁ left c')
    (hpassing : Passing inputs (passedTo c.webSocketHandler [message]) c c₁) :
    Follows (message :: decoded.1, decoded.2) c left c' := by
  obtain ⟨messages, behind⟩ := decoded
  unfold Follows at h ⊢
  dsimp only at h ⊢
  rw [passedTo_cons]
  rw [hpassing.tells.handler] at h
  cases behind with
  | none => exact ⟨h.1, hpassing.stops h.2⟩
  | some behind => exact ⟨h.1, hpassing.trans h.2⟩

theorem follows_of_closes {d : Decoder UInt8 (List Bytes) Message} {inputs : List Bytes} {stream : Bytes}
    {c' : Connection} (hnext : d.next inputs stream = .closes) (h : Stops [] c c') :
    Follows (d.decode inputs stream) c none c' := by
  rw [Decoder.decode_closes hnext]
  refine ⟨rfl, ?_⟩
  rwa [passedTo_nil]

theorem follows_of_waits {d : Decoder UInt8 (List Bytes) Message} {stream : Bytes}
    (hnext : d.next (inflateInputs c.calls) stream = .waits) :
    Follows (d.decode (inflateInputs c.calls) stream) c (some stream) c := by
  rw [Decoder.decode_waits hnext]
  refine ⟨rfl, ?_⟩
  rw [passedTo_nil]
  exact Passing.refl c

theorem hixieLoop_follows (hw : NeverCloses w) (inBuf : Bytes) {fuel : Nat} (messageStart : Nat)
    (hfuel : inBuf.length - messageStart < fuel) (c : Connection) :
    Ends (hixieLoop w inBuf fuel messageStart) c
      (fun start c' => Follows (hixieDecoder.decode (inflateInputs c.calls) (inBuf.drop messageStart)) c
        (start.map fun start => inBuf.drop start) c')
      fun _ _ => False := by
  induction fuel generalizing messageStart c with
  | zero => omega
  | succ fuel ih =>
      rw [hixieLoop]
      have hleft : some (inBuf.drop messageStart) =
        (some messageStart).map fun start => inBuf.drop start := rfl
      generalize hstream : inBuf.drop messageStart = stream at hleft ⊢
      cases stream with
      | nil =>
          rw [ends_pure, ← hleft]
          exact follows_of_waits (d := hixieDecoder) rfl
      | cons first rest =>
          have hnext := hixieNext_cons (inflateInputs c.calls) first rest
          dsimp only
          by_cases hfirst : first ≠ 0
          · rw [if_pos hfirst] at hnext ⊢
            rw [ends_bind]
            refine (closeInternal_stops c).mono (fun _ c' h => ?_) fun _ _ => id
            exact follows_of_closes (d := hixieDecoder) hnext h
          · rw [if_neg hfirst] at hnext ⊢
            cases hidx : rest.idxOf? 0xff with
            | none =>
                rw [hidx] at hnext
                rw [ends_pure, ← hleft]
                exact follows_of_waits (d := hixieDecoder) hnext
            | some length =>
                rw [hidx] at hnext
                have hitem : hixieDecoder.next (inflateInputs c.calls) (first :: rest) =
                  .item ⟨.textMessage, rest.take length⟩ (inflateInputs c.calls) (length + 2) := hnext
                have hsize := hixieDecoder.size hitem
                have hrest : (first :: rest).drop (length + 2) =
                    inBuf.drop (messageStart + length + 2) := by
                  rw [← hstream, List.drop_drop, Nat.add_assoc]
                have hlength : inBuf.length - messageStart = (first :: rest).length := by
                  rw [← hstream, List.length_drop]
                dsimp only
                rw [Decoder.decode_item hitem, hrest, record, ends_bind, ends_modify, ends_bind]
                have hrecorded := passing_record c
                  ⟨.message (first :: rest.take (length + 1)), c.out⟩ rfl rfl
                generalize hc₁ : ({ c with calls := _ } : Connection) = c₁ at hrecorded ⊢
                refine (handleWebSocketTextMessage_passing hw (rest.take length) c₁).mono ?_ fun _ _ => id
                rintro - c₂ hhandled
                have hpassing := hrecorded.trans hhandled
                rw [hrecorded.tells.handler, List.nil_append] at hpassing
                refine (ih _ (by omega) c₂).mono (fun start c' h => ?_) fun _ _ => id
                rw [hpassing.inputs, hrecorded.inputs] at h
                exact h.after hpassing

theorem decodeNextMessage_waits {buffer : Bytes} {messageStart : Nat}
    (h : scan (buffer.drop messageStart) = .incomplete) (hreadable : ¬ LengthCutOff buffer messageStart) :
    decodeNextMessage buffer messageStart [] false =
      .ok ⟨.noMessage, [], startsCompressed (buffer.drop messageStart), messageStart⟩ := by
  rw [decodeNextMessage_incomplete [] false h hreadable]
  match buffer.drop messageStart with
  | [] | [_] | _ :: _ :: _ => rfl

/-- The decoder does not stop inside a compressed frame. -/
abbrev StopsWhole (w : World) (c : Connection) (stream : Bytes) : Prop :=
  ∀ behind ∈ ((hybiDecoder w c.perMessageDeflate).decode (inflateInputs c.calls) stream).2,
    hybiNext w c.perMessageDeflate behind.1 behind.2 = .waits

/-- The loop over the frames from `messageStart` on follows their decoder. -/
abbrev HybiFollows (w : World) (inBuf : Bytes) (fuel messageStart : Nat) (c : Connection) : Prop :=
  Ends (hybiLoop w inBuf fuel messageStart) c
    (fun start c' => Follows ((hybiDecoder w c.perMessageDeflate).decode (inflateInputs c.calls)
        (inBuf.drop messageStart)) c (start.map fun start => inBuf.drop start) c')
    Faulted

theorem hybiFollows_of_invalid (hw : NeverCloses w) {inBuf : Bytes} {fuel messageStart : Nat}
    (hscan : scan (inBuf.drop messageStart) = .invalid) (c : Connection) :
    HybiFollows w inBuf (fuel + 1) messageStart c := by
  rw [HybiFollows, hybiLoop, decodeNextMessage_invalid [] false hscan]
  dsimp only
  rw [if_neg (Nat.lt_irrefl _), inflateMessage_of_plain rfl, pure_bind]
  dsimp only
  rw [ends_bind]
  refine (dispatchMessage_passing hw .error [] c).mono (fun goOn c' h => ?_) fun _ _ => False.elim
  rw [if_pos (Or.inl rfl)] at h
  obtain ⟨rfl, hstops⟩ := h
  exact follows_of_closes (d := hybiDecoder w c.perMessageDeflate) (hybiNext_invalid hscan) hstops

/-- An incomplete frame is waited for, unless it is known to be compressed without need. -/
theorem hybiFollows_of_incomplete (hinflate : InflatesByInputs w) {inBuf : Bytes} {fuel messageStart : Nat}
    (hscan : scan (inBuf.drop messageStart) = .incomplete) (c : Connection)
    (hwhole : StopsWhole w c (inBuf.drop messageStart)) :
    HybiFollows w inBuf (fuel + 1) messageStart c := by
  rw [HybiFollows, hybiLoop]
  by_cases hcut : LengthCutOff inBuf messageStart
  · rw [decodeNextMessage_cutOff [] false hcut]
    exact ends_fault.mpr ⟨_, rfl⟩
  have hnext := hybiNext_incomplete w c.perMessageDeflate (inflateInputs c.calls) hscan
  rw [decodeNextMessage_waits hscan hcut]
  dsimp only
  rw [if_neg (Nat.lt_irrefl _)]
  cases hcompressed : startsCompressed (inBuf.drop messageStart) with
  | false =>
      rw [hcompressed, if_neg (by simp)] at hnext
      rw [inflateMessage_of_plain rfl, pure_bind]
      dsimp only
      rw [dispatchMessage, pure_bind]
      exact follows_of_waits (d := hybiDecoder w c.perMessageDeflate) hnext
  | true =>
      rw [hcompressed, if_pos rfl] at hnext
      cases hdeflate : c.perMessageDeflate with
      | true =>
          rw [hdeflate, if_pos rfl] at hnext
          rw [StopsWhole,
            Decoder.decode_torn (d := hybiDecoder w c.perMessageDeflate) (hdeflate ▸ hnext)] at hwhole
          have hwaits := hwhole _ rfl
          rw [hdeflate, hnext] at hwaits
          cases hwaits
      | false =>
          rw [hdeflate, if_neg (by simp)] at hnext
          rw [ends_bind]
          refine (inflateMessage_passing hinflate .noMessage ⟨true, 0, []⟩ messageStart c).mono
            (fun message c' h => ?_) fun _ _ => False.elim
          rw [hdeflate] at h
          obtain ⟨rfl, hstops⟩ := h
          have hfollows := follows_of_closes (d := hybiDecoder w c.perMessageDeflate) (hdeflate ▸ hnext)
            hstops
          rwa [hdeflate] at hfollows

/-- A frame is taken, decompressed and passed on, and the loop goes on behind it. -/
theorem hybiFollows_of_frame (hw : NeverCloses w) (hinflate : InflatesByInputs w) {inBuf : Bytes}
    {fuel messageStart : Nat} {f : Frame} {size : Nat}
    (hscan : scan (inBuf.drop messageStart) = .frame f size) (c : Connection)
    (hwhole : StopsWhole w c (inBuf.drop messageStart))
    (hgoesOn : ∀ c₁, StopsWhole w c₁ (inBuf.drop (messageStart + size)) →
      HybiFollows w inBuf fuel (messageStart + size) c₁) :
    HybiFollows w inBuf (fuel + 1) messageStart c := by
  have closes : ∀ {c' : Connection}, hybiNext w c.perMessageDeflate (inflateInputs c.calls)
      (inBuf.drop messageStart) = .closes → Stops [] c c' →
      Follows ((hybiDecoder w c.perMessageDeflate).decode (inflateInputs c.calls)
        (inBuf.drop messageStart)) c none c' := fun hnext h =>
    follows_of_closes (d := hybiDecoder w c.perMessageDeflate) hnext h
  rw [HybiFollows, hybiLoop]
  by_cases hsize : f.payload.length < 2 ^ 32
  swap
  · rw [decodeNextMessage_oversized [] false ⟨f, size, hscan, Nat.le_of_not_lt hsize⟩]
    exact ends_fault.mpr ⟨_, rfl⟩
  have hpositive := (scan_size hscan).1
  have hnext := hybiNext_frame w c.perMessageDeflate (inflateInputs c.calls) hscan
  rw [decodeNextMessage_frame [] false hscan hsize]
  dsimp only
  rw [if_pos (by omega), record, ends_bind, ends_modify, ends_bind]
  have hrecorded := passing_record c
    ⟨.frame ((inBuf.take (messageStart + size)).drop messageStart), c.out⟩ rfl rfl
  generalize hc₁ : ({ c with calls := _ } : Connection) = c₁ at hrecorded ⊢
  refine (inflateMessage_passing hinflate _ f _ c₁).mono (fun message c₂ h₂ => ?_)
    fun _ _ => False.elim
  rw [hrecorded.inputs, hrecorded.deflate] at h₂
  cases hdata : (if f.compressed && !c.perMessageDeflate then none
      else payloadOf w (inflateInputs c.calls) f) with
  | none =>
      rw [hdata] at h₂ hnext
      obtain ⟨rfl, hstops⟩ := h₂
      exact closes hnext (hrecorded.stops hstops)
  | some data =>
      rw [hdata] at h₂ hnext
      obtain ⟨rfl, hinflated⟩ := h₂
      have hpassing₂ := hrecorded.trans hinflated
      dsimp only at hnext ⊢
      rw [ends_bind]
      refine (dispatchMessage_passing hw (messageStateOf f.opcode) data c₂).mono
        (fun goOn c₃ h₃ => ?_) fun _ _ => False.elim
      by_cases hstops : messageStateOf f.opcode = .error ∨ messageStateOf f.opcode = .close
      · rw [if_pos hstops] at h₃ hnext
        obtain ⟨rfl, hstopped⟩ := h₃
        exact closes hnext (hpassing₂.stops hstopped)
      · rw [if_neg hstops, decide_eq_true (messageStateOf_ne_noMessage _)] at h₃
        rw [if_neg hstops] at hnext
        obtain ⟨rfl, hpassing₃⟩ := h₃
        have hpassing := hpassing₂.trans hpassing₃
        rw [hpassing₂.inputs, hpassing₂.tells.handler, List.append_nil, List.nil_append] at hpassing
        have hitem : (hybiDecoder w c.perMessageDeflate).next (inflateInputs c.calls)
            (inBuf.drop messageStart) =
          .item ⟨messageStateOf f.opcode, data⟩ (inputsWith (inflateInputs c.calls) f) size := hnext
        rw [StopsWhole, Decoder.decode_item hitem, List.drop_drop] at hwhole
        rw [Decoder.decode_item hitem, List.drop_drop]
        rw [← hpassing.inputs, ← hpassing.deflate] at hwhole
        refine (hgoesOn c₃ hwhole).mono (fun start c' h => ?_) fun _ _ => id
        rw [hpassing.inputs, hpassing.deflate] at h
        exact h.after hpassing

theorem hybiLoop_follows (hw : NeverCloses w) (hinflate : InflatesByInputs w) (inBuf : Bytes)
    {fuel : Nat} (messageStart : Nat) (hfuel : inBuf.length - messageStart < fuel) (c : Connection)
    (hwhole : StopsWhole w c (inBuf.drop messageStart)) : HybiFollows w inBuf fuel messageStart c := by
  induction fuel generalizing messageStart c with
  | zero => omega
  | succ fuel ih =>
      cases hscan : scan (inBuf.drop messageStart) with
      | invalid => exact hybiFollows_of_invalid hw hscan c
      | incomplete => exact hybiFollows_of_incomplete hinflate hscan c hwhole
      | frame f size =>
          have hsize := scan_size hscan
          rw [List.length_drop] at hsize
          exact hybiFollows_of_frame hw hinflate hscan c hwhole fun c₁ => ih _ (by omega) c₁

/-! ### Reads -/

/-- An open connection with `left` in its buffer, messages having been passed on. -/
structure LeftWith (inputs told : List Bytes) (left : Bytes) (c c' : Connection) : Prop where
  undisturbed : Undisturbed c c'
  inBuf : c'.inBuf = left
  deflate : c'.perMessageDeflate = c.perMessageDeflate
  inputs : inflateInputs c'.calls = inputs
  tells : Tells told c c'

/-- What becomes of a connection when its buffer has been decoded: it is closed if too much is left. -/
def Leads (decoded : List Message × Option (List Bytes × Bytes)) (c c' : Connection) : Prop :=
  match decoded.2 with
  | none => Stops (passedTo c.webSocketHandler decoded.1) c c'
  | some (inputs, left) =>
      if maxWebsocketMessageSize < left.length then Stops (passedTo c.webSocketHandler decoded.1) c c'
      else LeftWith inputs (passedTo c.webSocketHandler decoded.1) left c c'

/-- What is in the buffer before does not matter. -/
theorem Leads.of_withInput {decoded : List Message × Option (List Bytes × Bytes)} {bytesReceived : Nat}
    {inBuf : Bytes} {c' : Connection} (h : Leads decoded (withInput bytesReceived inBuf c) c') :
    Leads decoded c c' := by
  obtain ⟨messages, behind⟩ := decoded
  unfold Leads at h ⊢
  cases behind with
  | none => exact ⟨h.alive, h.closed, h.deliveries⟩
  | some behind =>
      dsimp only at h ⊢
      split_ifs at h ⊢ with hlong
      · exact ⟨h.alive, h.closed, h.deliveries⟩
      · exact ⟨h.undisturbed, h.inBuf, h.deflate, h.inputs, h.tells.handler, h.tells.deliveries⟩

/-- The end of both loops. -/
theorem eraseMessages_leads {decoded : List Message × Option (List Bytes × Bytes)} {start : Option Nat}
    {c₁ : Connection} : Follows decoded c (start.map fun start => c.inBuf.drop start) c₁ →
    Ends (match start with
      | none => return ()
      | some start => do
          modify fun c => { c with inBuf := c.inBuf.drop start }
          closeIfTooLong : ConnM Unit) c₁
      (fun _ c' => Leads decoded c c') fun _ _ => False := by
  intro h
  obtain ⟨messages, behind⟩ := decoded
  unfold Follows at h
  cases behind with
  | none =>
      obtain ⟨hstart, hstops⟩ := h
      rw [Option.map_eq_none_iff] at hstart
      subst hstart
      exact hstops
  | some behind =>
      obtain ⟨hleft, hpassing⟩ := h
      obtain ⟨start, rfl, hdrop⟩ := Option.map_eq_some_iff.mp hleft
      dsimp only
      rw [ends_bind, ends_modify, hpassing.inBuf, hdrop, closeIfTooLong, ends_bind, ends_get, ends_ite]
      unfold Leads
      refine ⟨fun hlong => ?_, fun hfits => ?_⟩
      · have hlong : maxWebsocketMessageSize < behind.2.length := hlong
        refine (closeInternal_stops _).mono (fun _ c' hstops => ?_) fun _ _ => id
        have hstops₁ : Stops [] c₁ c' := ⟨hstops.alive, hstops.closed, hstops.deliveries⟩
        have hstopped := hpassing.stops hstops₁
        rw [List.append_nil] at hstopped
        dsimp only
        rwa [if_pos hlong]
      · have hfits : ¬ maxWebsocketMessageSize < behind.2.length := hfits
        dsimp only
        rw [ends_pure, if_neg hfits]
        exact ⟨hpassing.undisturbed, rfl, hpassing.deflate, hpassing.inputs, hpassing.tells.handler,
          hpassing.tells.deliveries⟩

theorem leads_of_empty {d : Decoder UInt8 (List Bytes) Message} (hempty : c.inBuf = [])
    (hnext : d.next (inflateInputs c.calls) [] = .waits) :
    Leads (d.decode (inflateInputs c.calls) c.inBuf) c c := by
  rw [hempty, Decoder.decode_waits hnext]
  unfold Leads
  dsimp only
  rw [if_neg (by simp), passedTo_nil]
  exact ⟨Undisturbed.refl c, hempty, rfl, rfl, rfl, (List.append_nil _).symm⟩

theorem handleHixieWebSocket_leads (hw : NeverCloses w) (c : Connection) :
    Ends (handleHixieWebSocket w) c
      (fun _ c' => Leads (hixieDecoder.decode (inflateInputs c.calls) c.inBuf) c c') fun _ _ => False := by
  rw [handleHixieWebSocket, ends_bind, ends_get, ends_ite]
  refine ⟨fun _ => ?_, fun hempty => leads_of_empty (not_not.mp hempty) rfl⟩
  rw [ends_bind]
  have hloop := hixieLoop_follows hw c.inBuf 0 (Nat.lt_succ_self _) c
  exact hloop.mono (fun _ _ h => eraseMessages_leads h) fun _ _ => id

theorem handleHybiWebSocket_leads (hw : NeverCloses w) (hinflate : InflatesByInputs w) (c : Connection)
    (hwhole : ∀ behind ∈ ((hybiDecoder w c.perMessageDeflate).decode (inflateInputs c.calls) c.inBuf).2,
      hybiNext w c.perMessageDeflate behind.1 behind.2 = .waits) :
    Ends (handleHybiWebSocket w) c
      (fun _ c' => Leads ((hybiDecoder w c.perMessageDeflate).decode (inflateInputs c.calls) c.inBuf) c c')
      Faulted := by
  rw [handleHybiWebSocket, ends_bind, ends_get, ends_ite]
  refine ⟨fun _ => ?_, fun hempty => leads_of_empty (not_not.mp hempty) rfl⟩
  rw [ends_bind]
  have hloop := hybiLoop_follows hw hinflate c.inBuf 0 (Nat.lt_succ_self _) c hwhole
  exact hloop.mono (fun _ _ h => (eraseMessages_leads h).mono (fun _ _ => id) fun _ _ => False.elim)
    fun _ _ => id

/-- An open WebSocket connection. -/
structure Converses (c : Connection) : Prop where
  state : c.state = .handlingHixieWebSocket ∨ c.state = .handlingHybiWebSocket
  alive : c.alive = true
  opened : c.closing = false

theorem handleNewDataFrom_leads (hw : NeverCloses w) (hinflate : InflatesByInputs w) (fuel : Nat)
    (hc : Converses c)
    (hwhole : ∀ behind ∈ ((decoder w c).decode (inflateInputs c.calls) c.inBuf).2,
      (decoder w c).next behind.1 behind.2 = .waits) :
    Ends (handleNewDataFrom w (fuel + 1)) c
      (fun _ c' => Leads ((decoder w c).decode (inflateInputs c.calls) c.inBuf) c c') Faulted := by
  rw [handleNewDataFrom, ends_bind, ends_get]
  unfold decoder at hwhole ⊢
  rcases hc.state with hstate | hstate
  · rw [if_pos hstate, hstate]
    exact (handleHixieWebSocket_leads hw c).mono (fun _ _ => id) fun _ _ => False.elim
  · have hother : ¬ c.state = .handlingHixieWebSocket := by
      rw [hstate]
      decide
    rw [if_neg hother] at hwhole ⊢
    rw [hstate]
    exact handleHybiWebSocket_leads hw hinflate c hwhole

/-- What a receiver with the limit on what is left would have passed on of the pieces, has been passed
on, and the connection is closed where it would have given up. -/
def Fed (w : World) (c : Connection) (pieces : List Bytes) (c' : Connection) : Prop :=
  deliveries c'.calls = deliveries c.calls ++ passedTo c.webSocketHandler
      (feed (decoder w c) maxWebsocketMessageSize (inflateInputs c.calls) c.inBuf pieces).1 ∧
    c'.closed = (feed (decoder w c) maxWebsocketMessageSize (inflateInputs c.calls) c.inBuf pieces).2

/-- No piece of the stream that arrives ends inside a compressed frame. -/
def WholeFrames (w : World) (c : Connection) (pieces : List Bytes) : Prop :=
  MessageStream.Whole (decoder w c) maxWebsocketMessageSize (inflateInputs c.calls) c.inBuf pieces

/-- The first of some reads hands `received` to the WebSocket connection `c₀`: to `c` itself, or to what
has become of `c` by what comes first in the read. -/
structure Arrives (w : World) (c : Connection) (first : Piece) (c₀ : Connection) (received : Bytes) :
    Prop where
  converses : Converses c₀
  handled : ∃ bytesReceived fuel, (step w (.readable (.data first))).run c =
    (handleNewDataFrom w (fuel + 1)).run (withInput bytesReceived (c₀.inBuf ++ received) c₀)

theorem Converses.arrives (hc : Converses c) (piece : Piece) : Arrives w c piece c piece.val := by
  refine ⟨hc, c.bytesReceived + piece.val.length, (c.inBuf ++ piece.val).length, ?_⟩
  rw [step_data_run hc.alive (closed_of_closing hc.opened), handleNewData, EStateM.run_bind]
  rfl

theorem Upgrade.arrives {header first : Piece} {c₀ : Connection} (h : Upgrade w c header c₀) {early : Bytes}
    (hfirst : first.val = header.val ++ early) : Arrives w c first c₀ early := by
  obtain ⟨-, halive, hrun⟩ := h.early early first hfirst
  refine ⟨⟨Or.inr h.upgraded, halive, h.opened⟩, c₀.bytesReceived + early.length, 0, ?_⟩
  rw [hrun]
  exact (handleNewDataFrom_of_state (c := extend early c₀) h.upgraded).symm

theorem Arrives.leads {c₀ : Connection} {first : Piece} {received : Bytes} (hw : NeverCloses w)
    (hinflate : InflatesByInputs w) (h : Arrives w c first c₀ received)
    (hwhole : ∀ behind ∈ ((decoder w c₀).decode (inflateInputs c₀.calls) (c₀.inBuf ++ received)).2,
      (decoder w c₀).next behind.1 behind.2 = .waits) :
    Ends (step w (.readable (.data first))) c (fun _ c₁ =>
      Leads ((decoder w c₀).decode (inflateInputs c₀.calls) (c₀.inBuf ++ received)) c₀ c₁) Faulted := by
  obtain ⟨bytesReceived, fuel, hfirst⟩ := h.handled
  have hinput : Converses (withInput bytesReceived (c₀.inBuf ++ received) c₀) :=
    ⟨h.converses.state, h.converses.alive, h.converses.opened⟩
  have hends := handleNewDataFrom_leads hw hinflate fuel hinput hwhole
  unfold Ends at hends ⊢
  rw [hfirst]
  exact Ends.mono hends (fun _ _ hleads => hleads.of_withInput) fun _ _ => id

/-- A read, and what the reads behind it do if it leaves the connection open. -/
theorem Arrives.feeds {c₀ c' : Connection} {first : Piece} {received : Bytes} {later : List Piece}
    (hw : NeverCloses w) (hinflate : InflatesByInputs w) (h : Arrives w c first c₀ received)
    (hrun : run w (reads (first :: later)) c = .ok c')
    (hquiet : UntroubledRun w (reads (first :: later)) c)
    (hwhole : WholeFrames w c₀ (received :: later.map Subtype.val))
    (hlater : ∀ c₁, Converses c₁ → run w (reads later) c₁ = .ok c' → UntroubledRun w (reads later) c₁ →
      WholeFrames w c₁ (later.map Subtype.val) → Fed w c₁ (later.map Subtype.val) c') :
    Fed w c₀ (received :: later.map Subtype.val) c' := by
  unfold Fed feed
  have hends := h.leads hw hinflate fun behind hbehind => (hwhole behind hbehind).1
  unfold Leads at hends
  unfold Ends at hends
  rw [reads, List.map_cons, run] at hrun
  cases hstep : (step w (.readable (.data first))).run c with
  | error e c₁ =>
      rw [hstep] at hends hrun
      obtain ⟨f, rfl⟩ := hends
      cases hrun
  | ok _ c₁ =>
      rw [hstep] at hends hrun
      dsimp only at hends hrun
      have stopped : ∀ {told : List Bytes}, Stops told c₀ c₁ →
          deliveries c'.calls = deliveries c₀.calls ++ told ∧ c'.closed = true := by
        intro told hstops
        have halive : c₁.alive = true := hstops.alive.trans h.converses.alive
        have hsame : run w (reads later) c₁ = .ok c₁ := run_reads_of_closed later halive hstops.closed
        rw [show run w (reads later) c₁ = .ok c' from hrun] at hsame
        injection hsame with hsame
        rw [hsame]
        exact ⟨hstops.deliveries, hstops.closed⟩
      cases hbehind : ((decoder w c₀).decode (inflateInputs c₀.calls) (c₀.inBuf ++ received)).2 with
      | none =>
          rw [hbehind] at hends
          exact stopped hends
      | some behind =>
          obtain ⟨inputs, left⟩ := behind
          rw [hbehind] at hends
          dsimp only at hends ⊢
          by_cases hlong : maxWebsocketMessageSize < left.length
          · rw [if_pos hlong] at hends ⊢
            exact stopped hends
          · rw [if_neg hlong] at hends ⊢
            have hquiet₁ := hquiet.tail hstep
            have hconverses : Converses c₁ := by
              refine ⟨?_, hends.undisturbed.2.1.trans h.converses.alive, ?_⟩
              · rw [hends.undisturbed.1]
                exact h.converses.state
              · exact hends.undisturbed.closing h.converses.opened (hquiet.step hstep)
            have hdecoder : decoder w c₁ = decoder w c₀ := by
              rw [decoder, decoder, hends.undisturbed.1, hends.deflate]
            have hwhole₁ : WholeFrames w c₁ (later.map Subtype.val) := by
              rw [WholeFrames, hdecoder, hends.inputs, hends.inBuf]
              exact (hwhole _ hbehind).2 hlong
            obtain ⟨hdeliveries, hclosed⟩ := hlater c₁ hconverses hrun hquiet₁ hwhole₁
            rw [hdecoder, hends.inputs, hends.inBuf] at hdeliveries hclosed
            refine ⟨?_, hclosed⟩
            rw [hdeliveries, hends.tells.deliveries, hends.tells.handler, passedTo_append,
              List.append_assoc]

theorem run_fed {c' : Connection} (hw : NeverCloses w) (hinflate : InflatesByInputs w) (pieces : List Piece)
    (hc : Converses c) (hrun : run w (reads pieces) c = .ok c') (hquiet : UntroubledRun w (reads pieces) c)
    (hwhole : WholeFrames w c (pieces.map Subtype.val)) : Fed w c (pieces.map Subtype.val) c' := by
  induction pieces generalizing c with
  | nil =>
      injection hrun with hrun
      subst hrun
      unfold Fed
      rw [List.map_nil, feed, passedTo_nil, List.append_nil]
      exact ⟨rfl, closed_of_closing hc.opened⟩
  | cons piece pieces ih =>
      rw [List.map_cons] at hwhole ⊢
      exact (hc.arrives piece).feeds hw hinflate hrun hquiet hwhole fun c₁ hc₁ hrun₁ hquiet₁ hwhole₁ =>
        ih hc₁ hrun₁ hquiet₁ hwhole₁

/-! ### Sizes -/

/-- A message for `onData` that is longer than the limit. -/
def Message.long (message : Message) : Bool :=
  match message.messageState with
  | .textMessage | .binaryMessage => decide (maxWebsocketMessageSize < message.data.length)
  | _ => false

theorem length_le_of_passed {message : Message} {data : Bytes} (hlong : message.long = false)
    (h : data ∈ message.passed) : data.length ≤ maxWebsocketMessageSize := by
  obtain ⟨messageState, whole⟩ := message
  cases messageState with
  | textMessage =>
      have hshort : whole.length ≤ maxWebsocketMessageSize := by
        simpa [Message.long] using hlong
      rw [List.mem_singleton.mp h]
      exact (List.takeWhile_sublist _).length_le.trans hshort
  | binaryMessage =>
      rw [List.mem_singleton.mp h]
      simpa [Message.long] using hlong
  | error | ping | pong | noMessage | close => cases h

theorem length_le_of_passedTo {webSocketHandler : Option HandlerId} {messages : List Message}
    (hshort : ∀ message ∈ messages, message.long = false) :
    ∀ data ∈ passedTo webSocketHandler messages, data.length ≤ maxWebsocketMessageSize := by
  intro data hdata
  cases webSocketHandler with
  | none => cases hdata
  | some handler =>
      obtain ⟨message, hmessage, hpassed⟩ := List.mem_flatMap.mp hdata
      exact length_le_of_passed (hshort message hmessage) hpassed

/-- A way of cutting into reads what arrives for the WebSocket connection `c₀` behind what waits in its
buffer. -/
structure Reception (w : World) (c c₀ : Connection) (stream : Bytes) where
  first : Piece
  received : Bytes
  later : List Piece
  arrives : Arrives w c first c₀ received
  stream_eq : (received :: later.map Subtype.val).flatten = stream

namespace Reception

variable {c₀ : Connection} {stream : Bytes}

def events (reception : Reception w c c₀ stream) : List Event := reads (reception.first :: reception.later)

/-- No read completes a message that is too long, ends too far behind the beginning of one that is not, or
ends inside a compressed frame. -/
def Checked (reception : Reception w c c₀ stream) : Prop :=
  MessageStream.Checked (decoder w c₀) maxWebsocketMessageSize Message.long (inflateInputs c₀.calls)
    c₀.inBuf (reception.received :: reception.later.map Subtype.val)

end Reception

/-- A stream is received as if the sizes of its messages were limited. -/
theorem run_received {c₀ c' : Connection} {stream : Bytes} (hw : NeverCloses w)
    (hinflate : InflatesByInputs w) (reception : Reception w c c₀ stream)
    (hrun : run w reception.events c = .ok c') (hquiet : UntroubledRun w reception.events c)
    (hchecked : reception.Checked) :
    deliveries c'.calls = deliveries c₀.calls ++ passedTo c₀.webSocketHandler
        (receive (decoder w c₀) maxWebsocketMessageSize Message.long (inflateInputs c₀.calls)
          (c₀.inBuf ++ stream)).1 ∧
      c'.closed = (receive (decoder w c₀) maxWebsocketMessageSize Message.long (inflateInputs c₀.calls)
        (c₀.inBuf ++ stream)).2 := by
  have hfed := reception.arrives.feeds hw hinflate hrun hquiet hchecked.whole
    fun c₁ hc₁ hrun₁ hquiet₁ hwhole₁ => run_fed hw hinflate _ hc₁ hrun₁ hquiet₁ hwhole₁
  unfold Fed at hfed
  rwa [feed_eq_receive hchecked nofun, reception.stream_eq] at hfed

/-- What is passed on of a stream is not too long, a message that is too long closes the connection, and
what is passed on does not depend on how the stream is cut, nor whether the connection is closed. -/
structure SizesLimited (w : World) (c₀ : Connection) (stream : Bytes) (c₁ c₂ : Connection) : Prop where
  limited : ∃ messages, deliveries c₁.calls = deliveries c₀.calls ++ messages ∧
    ∀ message ∈ messages, message.length ≤ maxWebsocketMessageSize
  closes : HasLong (decoder w c₀) Message.long (inflateInputs c₀.calls) (c₀.inBuf ++ stream) →
    c₁.closed = true
  uncut : deliveries c₁.calls = deliveries c₂.calls ∧ c₁.closed = c₂.closed

/-- **The sizes of messages.** They are limited for every two ways of cutting a stream in which the limit on
what waits in the buffer checks the messages. -/
theorem run_sizesLimited {c₀ c₁ c₂ : Connection} {stream : Bytes} (hw : NeverCloses w)
    (hinflate : InflatesByInputs w) (reception reception' : Reception w c c₀ stream)
    (hrun : run w reception.events c = .ok c₁) (hrun' : run w reception'.events c = .ok c₂)
    (hquiet : UntroubledRun w reception.events c) (hquiet' : UntroubledRun w reception'.events c)
    (hchecked : reception.Checked) (hchecked' : reception'.Checked) : SizesLimited w c₀ stream c₁ c₂ := by
  obtain ⟨hdeliveries, hclosed⟩ := run_received hw hinflate reception hrun hquiet hchecked
  obtain ⟨hdeliveries', hclosed'⟩ := run_received hw hinflate reception' hrun' hquiet' hchecked'
  refine ⟨⟨_, hdeliveries, length_le_of_passedTo fun _ => not_long_of_receive⟩, fun hlong => ?_, ?_, ?_⟩
  · rw [hclosed]
    exact receive_of_hasLong hlong
  · rw [hdeliveries, hdeliveries']
  · rw [hclosed, hclosed']

/-- A connection that has just been upgraded. -/
structure JustUpgraded (c₀ : Connection) : Prop where
  upgrade : Upgrade World.chat fresh chatRequest c₀
  decoder : decoder World.chat c₀ = hybiDecoder World.chat false
  inputs : inflateInputs c₀.calls = []
  inBuf : c₀.inBuf = []
  deliveries : deliveries c₀.calls = []

theorem exists_justUpgraded : ∃ c₀, JustUpgraded c₀ := by
  obtain ⟨c₀, hupgrade⟩ := exists_upgrade
  have hrun : (match (step World.chat (.readable (.data chatRequest))).run fresh with
      | .ok () c₀ => decide (c₀.perMessageDeflate = false ∧ inflateInputs c₀.calls = [] ∧ c₀.inBuf = [] ∧
          deliveries c₀.calls = [])
      | .error _ _ => false) = true := by decide +kernel
  rw [hupgrade.run] at hrun
  obtain ⟨hdeflate, hinputs, hinBuf, hdeliveries⟩ := of_decide_eq_true hrun
  refine ⟨c₀, hupgrade, ?_, hinputs, hinBuf, hdeliveries⟩
  rw [decoder, hupgrade.upgraded, hdeflate, if_neg (by decide)]

theorem inflatesByInputs_chat : InflatesByInputs World.chat := fun _ _ => rfl

/-- A message in the read of the handshake. -/
def greetingRead : Piece := ⟨chatRequest.val ++ [0x81, 2, 104, 105], by decide⟩

/-- The same message in reads of its own. -/
def greetingReads : List Piece := [⟨[0x81], by decide⟩, ⟨[2, 104], by decide⟩, ⟨[105], by decide⟩]

/-- One message, in the read of the handshake and in three reads of its own. -/
theorem run_sizesLimited_greeting :
    ∃ c₀ c₁ c₂, run World.chat (reads [greetingRead]) fresh = .ok c₁ ∧
      run World.chat (reads (chatRequest :: greetingReads)) fresh = .ok c₂ ∧
      SizesLimited World.chat c₀ [0x81, 2, 104, 105] c₁ c₂ := by
  obtain ⟨c₀, h⟩ := exists_justUpgraded
  have hrun : (do
      let _ ← run World.chat (reads [greetingRead]) fresh
      let _ ← run World.chat (reads (chatRequest :: greetingReads)) fresh
      return true) = (.ok true : Except Fault Bool) := by decide +kernel
  obtain ⟨c₁, hc₁, hrun⟩ := ok_of_bind_eq_ok hrun
  obtain ⟨c₂, hc₂, -⟩ := ok_of_bind_eq_ok hrun
  let reception : Reception World.chat fresh c₀ [0x81, 2, 104, 105] :=
    ⟨greetingRead, [0x81, 2, 104, 105], [], h.upgrade.arrives rfl, rfl⟩
  let reception' : Reception World.chat fresh c₀ [0x81, 2, 104, 105] :=
    ⟨chatRequest, [], greetingReads, h.upgrade.arrives (List.append_nil _).symm, rfl⟩
  refine ⟨c₀, c₁, c₂, hc₁, hc₂, run_sizesLimited neverCloses_chat inflatesByInputs_chat reception
    reception' hc₁ hc₂ ?_ ?_ ?_ ?_⟩
  · show UntroubledRun World.chat (reads [greetingRead]) fresh
    decide +kernel
  · show UntroubledRun World.chat (reads (chatRequest :: greetingReads)) fresh
    decide +kernel
  · rw [Reception.Checked, h.decoder, h.inputs, h.inBuf]
    show Checked (hybiDecoder World.chat false) maxWebsocketMessageSize Message.long [] []
      [[0x81, 2, 104, 105]]
    decide +kernel
  · rw [Reception.Checked, h.decoder, h.inputs, h.inBuf]
    show Checked (hybiDecoder World.chat false) maxWebsocketMessageSize Message.long [] []
      ([] :: greetingReads.map Subtype.val)
    decide +kernel

/-- One zero more than the limit, compressed. -/
def manyZeros : Bytes :=
  [236, 193, 49, 1, 0, 0, 0, 194, 160, 245, 79, 109, 12, 31, 160] ++ List.replicate 15 0 ++ [128, 187, 1]

/-- The compressing server, with what zlib makes of that. -/
def inflating : World :=
  { World.compressing with
    inflate := fun _ data =>
      if data = manyZeros then some (List.replicate (maxWebsocketMessageSize + 1) 0) else none }

/-- A compressed binary frame, with a key of zeros. -/
def zerosFrame : Piece := ⟨[0xc2, 0xa1, 0, 0, 0, 0] ++ manyZeros, by decide⟩

def inflatingRequest : Piece := ⟨compressedUpgrade, compressedUpgrade_size⟩

theorem hybiNext_zerosFrame :
    hybiNext inflating true [] zerosFrame.val =
      .item ⟨.binaryMessage, List.replicate (maxWebsocketMessageSize + 1) 0⟩ [manyZeros] 39 := by
  have hscan : scan zerosFrame.val = .frame ⟨true, 2, manyZeros⟩ 39 := by decide +kernel
  have hanswer : payloadOf inflating [] ⟨true, 2, manyZeros⟩ =
      some (List.replicate (maxWebsocketMessageSize + 1) 0) := by
    rw [payloadOf, if_pos rfl]
    show (if manyZeros = manyZeros then some (List.replicate (maxWebsocketMessageSize + 1) 0) else none) = _
    exact if_pos rfl
  rw [hybiNext_frame inflating true [] hscan, if_neg (by simp), hanswer]
  rfl

/-- What is too long only when it is decompressed is passed on. -/
theorem not_sizesLimited_of_compressed :
    ∃ c₀ c₁, run inflating (reads [inflatingRequest]) fresh = .ok c₀ ∧
      ∃ reception : Reception inflating c₀ c₀ zerosFrame.val,
        run inflating reception.events c₀ = .ok c₁ ∧ ¬ SizesLimited inflating c₀ zerosFrame.val c₁ c₁ := by
  have hrun : (do
      let c₀ ← run inflating (reads [inflatingRequest]) fresh
      let _ ← run inflating (reads [zerosFrame]) c₀
      return decide (c₀.state = .handlingHybiWebSocket ∧ c₀.alive = true ∧ c₀.closing = false ∧
        c₀.perMessageDeflate = true ∧ inflateInputs c₀.calls = [] ∧ c₀.inBuf = [] ∧
        deliveries c₀.calls = [] ∧ c₀.webSocketHandler = some 1 ∧
        UntroubledRun inflating (reads [zerosFrame]) c₀)) = (.ok true : Except Fault Bool) := by
    decide +kernel
  obtain ⟨c₀, hc₀, hrun⟩ := ok_of_bind_eq_ok hrun
  obtain ⟨c₁, hc₁, hrun⟩ := ok_of_bind_eq_ok hrun
  injection hrun with hrun
  obtain ⟨hstate, halive, hopen, hdeflate, hinputs, hinBuf, hdeliveries, hhandler, hquiet⟩ :=
    of_decide_eq_true hrun
  have hconverses : Converses c₀ := ⟨Or.inr hstate, halive, hopen⟩
  have hdecoder : decoder inflating c₀ = hybiDecoder inflating true := by
    rw [decoder, hstate, hdeflate, if_neg (by decide)]
  have hitem : (hybiDecoder inflating true).next [] ([] ++ zerosFrame.val) =
    .item ⟨.binaryMessage, List.replicate (maxWebsocketMessageSize + 1) 0⟩ [manyZeros] 39 :=
    hybiNext_zerosFrame
  have hrest : (hybiDecoder inflating true).next [manyZeros] (([] ++ zerosFrame.val).drop 39) = .waits := rfl
  have hdecode : (hybiDecoder inflating true).decode [] ([] ++ zerosFrame.val) =
      ([⟨.binaryMessage, List.replicate (maxWebsocketMessageSize + 1) 0⟩], some ([manyZeros], [])) := by
    rw [Decoder.decode_item hitem, Decoder.decode_waits hrest]
    rfl
  have hwhole : WholeFrames inflating c₀ [zerosFrame.val] := by
    rw [WholeFrames, hdecoder, hinputs, hinBuf]
    intro behind hbehind
    rw [hdecode] at hbehind
    cases hbehind
    exact ⟨rfl, fun _ => trivial⟩
  have hw : NeverCloses inflating := by
    intro calls handler message
    simp [inflating, World.compressing, World.chat, World.plain]
  obtain ⟨hpassed, -⟩ := run_fed hw (fun _ _ => rfl) [zerosFrame] hconverses hc₁ hquiet hwhole
  rw [hdecoder, hinputs, hinBuf, hdeliveries, hhandler, List.map_singleton, feed, hdecode] at hpassed
  have htold : deliveries c₁.calls = [List.replicate (maxWebsocketMessageSize + 1) 0] := hpassed
  refine ⟨c₀, c₁, hc₀, ⟨zerosFrame, zerosFrame.val, [], hconverses.arrives zerosFrame, ?_⟩, hc₁,
    fun hlimited => ?_⟩
  · rw [List.map_nil, List.flatten_singleton]
  · obtain ⟨messages, hmessages, hshort⟩ := hlimited.limited
    rw [hdeliveries, List.nil_append, htold] at hmessages
    have hle := hshort _ (hmessages ▸ List.mem_singleton_self _)
    rw [List.length_replicate] at hle
    omega

end Connection

end Seasocks
