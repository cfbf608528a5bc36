import Seasocks.Proof.Exceptions
import Seasocks.Proof.InputBlind
import Seasocks.Proof.OutputFlags

/-!
# The frames of a stream

The loop of `handleHybiWebSocket` for uncompressed frames, on the stream instead of the buffer: it can be
left behind any part of the stream and taken up again.
-/

namespace Seasocks.Connection

open Program Relation WebSocketFrame HybiPacketDecoder

variable {w : World} {c : Connection}

/-! ### The loop on the stream -/

/-- What the loop of `handleHybiWebSocket` does with uncompressed frames, on the stream instead of the
buffer: what is left behind the complete frames, `none` after a close. -/
def consume (w : World) : Nat → Bytes → ConnM (Option Bytes)
  | 0, stream => return some stream
  | fuel + 1, stream =>
      match scan stream with
      | .incomplete => return some stream
      | .invalid => do
          closeInternal
          return none
      | .frame f size => do
          record (.frame (stream.take size))
          match ← dispatchMessage w (messageStateOf f.opcode) f.payload with
          | none => return none
          | some _ => consume w fuel (stream.drop size)

/-- What the loop leaves of a stream, `none` behind a frame that closes the connection. -/
def unread : Nat → Bytes → Option Bytes
  | 0, stream => some stream
  | fuel + 1, stream =>
      match scan stream with
      | .incomplete => some stream
      | .invalid => none
      | .frame f size =>
          if messageStateOf f.opcode = .error ∨ messageStateOf f.opcode = .close then none
          else unread fuel (stream.drop size)

/-- A frame is not compressed and not too long. -/
def Modest (stream : Bytes) : Prop :=
  (∀ b0 ∈ stream.head?, rsv1 b0 = false) ∧
    ∀ size ∈ declaredSize stream, size ≤ maxWebsocketMessageSize

theorem Modest.of_append {stream more : Bytes} (h : Modest (stream ++ more)) : Modest stream := by
  refine ⟨fun b0 hb0 => h.1 b0 ?_, fun size hsize => h.2 size (declaredSize_append hsize more)⟩
  cases stream with
  | nil => cases hb0
  | cons b stream => exact hb0

theorem Modest.frame {stream : Bytes} {f : Frame} {size : Nat} (h : Modest stream)
    (hscan : scan stream = .frame f size) :
    f.compressed = false ∧ f.payload.length < 2 ^ 32 := by
  have hsize := h.2 size (declaredSize_of_frame hscan)
  match stream with
  | [] | [_] => simp [scan] at hscan
  | b0 :: b1 :: rest =>
      have hplain := h.1 b0 rfl
      rw [scan] at hscan
      split_ifs at hscan with hinvalid hshort
      injection hscan with hf hsize'
      subst hf
      refine ⟨hplain, ?_⟩
      rw [payload_length (Nat.le_of_not_lt hshort)]
      rw [maxWebsocketMessageSize] at hsize
      omega

/-- The frame a stream begins with does not stop the loop. -/
def Passes (stream : Bytes) : Prop :=
  ∃ f size, scan stream = .frame f size ∧ messageStateOf f.opcode ≠ .error ∧
    messageStateOf f.opcode ≠ .close

/-- None of the frames from `messageStart` on that the loop gets to has a length that is cut off behind
another frame. -/
def LengthsWhole (buffer : Bytes) (messageStart : Nat) : Prop :=
  ∀ count, (∀ k < count, Passes ((buffer.drop messageStart).drop
      (boundary (buffer.drop messageStart) k))) →
    ¬ LengthCutOff buffer (messageStart + boundary (buffer.drop messageStart) count)

theorem lengthsWhole_iff {buffer : Bytes} {messageStart : Nat} :
    LengthsWhole buffer messageStart ↔ ¬ LengthCutOff buffer messageStart ∧
      ∀ f size, scan (buffer.drop messageStart) = .frame f size →
        Passes (buffer.drop messageStart) → LengthsWhole buffer (messageStart + size) := by
  unfold LengthsWhole
  rw [forall_passed_iff (p := fun start => ¬ LengthCutOff buffer (messageStart + start))]
  simp only [Nat.add_zero, List.drop_drop, Nat.add_assoc]

theorem messageStateOf_ne_noMessage (opcode : UInt8) : messageStateOf opcode ≠ .noMessage := by
  unfold messageStateOf
  split_ifs <;> simp

/-- What follows a message that is not missing is only told whether it has closed the connection. -/
theorem dispatchMessage_bind_congr {α : Type} {messageState : MessageState} {message : Bytes}
    {f g : Option Bool → ConnM α} (hsome : messageState ≠ .noMessage) (hnone : f none = g none)
    (htrue : messageState ≠ .error → messageState ≠ .close → f (some true) = g (some true)) :
    dispatchMessage w messageState message >>= f = dispatchMessage w messageState message >>= g := by
  cases messageState with
  | noMessage => exact absurd rfl hsome
  | error | close =>
      rw [dispatchMessage, bind_assoc, bind_assoc]
      simp only [pure_bind, hnone]
  | textMessage | binaryMessage | ping | pong =>
      have hgoOn := htrue (by simp) (by simp)
      rw [dispatchMessage]
      simp only [bind_assoc, pure_bind, hgoOn]

theorem inflateMessage_of_plain {decoded : Decoded} (h : decoded.deflateNeeded = false) :
    inflateMessage w decoded = pure (some decoded.messageOut) := by
  rw [inflateMessage, if_neg (by simp [h])]

/-- A compressed frame that has begun, with its two leading bytes, and is not complete. -/
def MidCompressed (stream : Bytes) : Prop :=
  scan stream = .incomplete ∧ ∃ b0 b1 rest, stream = b0 :: b1 :: rest ∧ rsv1 b0 = true

theorem Modest.not_midCompressed {stream : Bytes} (h : Modest stream) : ¬ MidCompressed stream := by
  rintro ⟨-, b0, b1, rest, rfl, hcompressed⟩
  rw [h.1 b0 rfl] at hcompressed
  cases hcompressed

theorem decodeNextMessage_between {buffer : Bytes} {messageStart : Nat}
    (h : scan (buffer.drop messageStart) = .incomplete)
    (hreadable : ¬ LengthCutOff buffer messageStart)
    (hmid : ¬ MidCompressed (buffer.drop messageStart)) :
    decodeNextMessage buffer messageStart [] false = .ok ⟨.noMessage, [], false, messageStart⟩ := by
  rw [decodeNextMessage_incomplete [] false h hreadable]
  match buffer.drop messageStart, h, hmid with
  | [], _, _ | [_], _, _ => rfl
  | b0 :: b1 :: rest, h, hmid =>
      dsimp only
      cases hcompressed : rsv1 b0 with
      | false => rfl
      | true => exact absurd ⟨h, b0, b1, rest, rfl, hcompressed⟩ hmid

theorem hybiLoop_eq (buffer : Bytes) (fuel : Nat) {messageStart : Nat}
    (hstart : messageStart ≤ buffer.length) (hmodest : AllFrames Modest (buffer.drop messageStart))
    (hwhole : LengthsWhole buffer messageStart) :
    hybiLoop w buffer fuel messageStart = do
      let rest ← consume w fuel (buffer.drop messageStart)
      return rest.map fun rest => buffer.length - rest.length := by
  induction fuel generalizing messageStart with
  | zero =>
      rw [hybiLoop, consume, pure_bind, Option.map_some, List.length_drop]
      congr 2
      omega
  | succ fuel ih =>
      rw [hybiLoop, consume]
      cases hscan : scan (buffer.drop messageStart) with
      | invalid =>
          rw [decodeNextMessage_invalid [] false hscan]
          dsimp only
          rw [if_neg (Nat.lt_irrefl _), inflateMessage_of_plain rfl, pure_bind]
          dsimp only
          rw [dispatchMessage, bind_assoc, bind_assoc]
          rfl
      | incomplete =>
          rw [decodeNextMessage_between hscan (lengthsWhole_iff.mp hwhole).1
            hmodest.head.not_midCompressed]
          dsimp only
          rw [if_neg (Nat.lt_irrefl _), inflateMessage_of_plain rfl, pure_bind, pure_bind,
            Option.map_some, List.length_drop, Nat.sub_sub_self hstart]
          rfl
      | frame f size =>
          obtain ⟨hplain, hpayload⟩ := hmodest.head.frame hscan
          have hsize := scan_size hscan
          rw [List.length_drop] at hsize
          have htaken : (buffer.take (messageStart + size)).drop messageStart =
              (buffer.drop messageStart).take size := by
            rw [List.drop_take, Nat.add_sub_cancel_left]
          rw [decodeNextMessage_frame [] false hscan hpayload]
          dsimp only
          rw [if_pos (by omega), htaken, bind_assoc]
          refine bind_congr fun _ => ?_
          rw [inflateMessage_of_plain hplain, pure_bind]
          dsimp only
          rw [bind_assoc]
          refine dispatchMessage_bind_congr (messageStateOf_ne_noMessage _) ?_ fun herror hclose => ?_
          · dsimp only
            rw [pure_bind]
            rfl
          · dsimp only
            have hnext := ih (by omega) (List.drop_drop ▸ hmodest.tail hscan)
              ((lengthsWhole_iff.mp hwhole).2 f size hscan ⟨f, size, hscan, herror, hclose⟩)
            rw [hnext, List.drop_drop]

/-! ### Continuing a stream -/

theorem consume_fuel {fuel fuel' : Nat} {stream : Bytes} (h : stream.length < fuel)
    (h' : stream.length < fuel') : consume w fuel stream = consume w fuel' stream := by
  induction fuel generalizing fuel' stream with
  | zero => omega
  | succ fuel ih =>
      obtain ⟨fuel', rfl⟩ : ∃ before, fuel' = before + 1 := ⟨fuel' - 1, by omega⟩
      rw [consume, consume]
      cases hscan : scan stream with
      | invalid | incomplete => rfl
      | frame f size =>
          have hsize := scan_size hscan
          have hrest : consume w fuel (stream.drop size) = consume w fuel' (stream.drop size) :=
            ih (by rw [List.length_drop]; omega) (by rw [List.length_drop]; omega)
          dsimp only
          rw [hrest]

/-- The loop over a stream is the loop over its beginning, and then, unless that has closed the
connection, the loop over what the beginning has left and the rest. -/
theorem consume_append {fuel fuel' fuel'' : Nat} {stream more : Bytes}
    (h : (stream ++ more).length < fuel) (h' : stream.length < fuel')
    (h'' : (stream ++ more).length < fuel'') :
    consume w fuel (stream ++ more) = (do
      match ← consume w fuel' stream with
      | none => return none
      | some rest => consume w fuel'' (rest ++ more)) := by
  induction fuel' generalizing fuel stream with
  | zero => omega
  | succ fuel' ih =>
      rw [consume]
      cases hscan : scan stream with
      | incomplete => exact consume_fuel h h''
      | invalid =>
          obtain ⟨fuel, rfl⟩ : ∃ before, fuel = before + 1 := ⟨fuel - 1, by omega⟩
          rw [consume, scan_append_invalid hscan more]
          dsimp only
          rw [bind_assoc]
          rfl
      | frame f size =>
          obtain ⟨fuel, rfl⟩ : ∃ before, fuel = before + 1 := ⟨fuel - 1, by omega⟩
          have hsize := scan_size hscan
          rw [List.length_append] at h h''
          rw [consume, scan_append_frame hscan more]
          dsimp only
          rw [List.take_append_of_le_length hsize.2, List.drop_append_of_le_length hsize.2, bind_assoc]
          refine bind_congr fun _ => ?_
          rw [bind_assoc]
          refine bind_congr fun goOn => ?_
          cases goOn with
          | none => exact (pure_bind _ _).symm
          | some _ =>
              refine ih ?_ ?_ ?_ <;> simp only [List.length_append, List.length_drop] <;> omega

theorem consume_blind (fuel : Nat) (stream : Bytes) : Blind (consume w fuel stream) := by
  induction fuel generalizing stream with
  | zero => exact blind_pure _
  | succ fuel ih =>
      rw [consume]
      cases scan stream with
      | incomplete => exact blind_pure _
      | invalid => exact closeInternal_blind.bind fun _ => blind_pure _
      | frame f size =>
          refine (record_blind _).bind fun _ => (dispatchMessage_blind _ _).bind fun goOn => ?_
          cases goOn with
          | none => exact blind_pure _
          | some _ => exact ih _

/-! ### What a handler that does not close can do -/

/-- No WebSocket handler closes the connection when it is given a message. -/
def NeverCloses (w : World) : Prop :=
  ∀ calls handler message,
    .close ∉ w.onText calls handler message ∧ .close ∉ w.onBinary calls handler message

/-- Still in the same state, and open unless something has failed. -/
def Undisturbed (c c' : Connection) : Prop :=
  c'.state = c.state ∧ c'.alive = c.alive ∧ Output.Quiet c.out c'.out

theorem Undisturbed.refl (c : Connection) : Undisturbed c c := ⟨rfl, rfl, Output.Quiet.refl _⟩

theorem Undisturbed.trans {c' c'' : Connection} (h : Undisturbed c c') (h' : Undisturbed c' c'') :
    Undisturbed c c'' := ⟨h'.1.trans h.1, h'.2.1.trans h.2.1, h.2.2.trans h'.2.2⟩

theorem liftOut_undisturbed {α : Type} {m : OutM α} (h : Runs (Output.BufferStep w) m) :
    Returns Undisturbed (liftOut m) := fun c => by
  rw [ends_liftOut]
  exact (h c.out).mono fun _ out hout =>
    ReflTransGen.single ⟨rfl, rfl, Output.quiet_of_bufferSteps hout⟩

theorem record_undisturbed (call : Call) : Returns Undisturbed (record call) :=
  Returns.single fun _ => ⟨rfl, rfl, Output.Quiet.refl _⟩

theorem sendHybi_undisturbed (opcode : Opcode) (webSocketResponse : Bytes) :
    Returns Undisturbed (sendHybi w opcode webSocketResponse) := by
  refine Returns.get_bind fun c => (liftOut_undisturbed (Output.write_runs _ _)).bind fun _ => ?_
  refine Returns.ite (Returns.ite ?_ ?_) (Returns.pure _)
  · refine Returns.get_bind fun c => (record_undisturbed _).bind fun _ => ?_
    exact liftOut_undisturbed (Output.sendHybiData_runs _)
  · exact liftOut_undisturbed (Output.sendHybiData_runs _)

theorem wsCall_undisturbed {call : WsCall} (h : call ≠ .close) :
    Returns Undisturbed (wsCall w call) := by
  cases call with
  | sendText data =>
      refine Returns.get_bind fun c => Returns.ite (Returns.ite ?_ ?_) (Returns.pure _)
      · refine (liftOut_undisturbed (Output.write_runs _ _)).bind fun _ =>
          Returns.ite ?_ (Returns.pure _)
        refine (liftOut_undisturbed (Output.write_runs _ _)).bind fun _ =>
          Returns.ite ?_ (Returns.pure _)
        exact (liftOut_undisturbed (Output.write_runs _ _)).bind fun _ => Returns.pure _
      · exact sendHybi_undisturbed _ _
  | sendBinary data =>
      refine Returns.get_bind fun c => Returns.ite (Returns.ite ?_ (Returns.pure _)) (Returns.pure _)
      exact sendHybi_undisturbed _ _
  | close => exact absurd rfl h

theorem Undisturbed.of_steps {c c' : Connection} (h : ReflTransGen Undisturbed c c') :
    Undisturbed c c' := by
  induction h with
  | refl => exact Undisturbed.refl c
  | tail _ hstep ih => exact ih.trans hstep

theorem undisturbed_of_returns {α : Type} {m : ConnM α} (h : Returns Undisturbed m)
    (c : Connection) : Ends m c (fun _ c' => Undisturbed c c') fun _ _ => False :=
  (h c).mono (fun _ _ => Undisturbed.of_steps) fun _ _ => id

theorem callHandler_undisturbed {call : Call} {react : List Entry → List WsCall}
    (h : ∀ calls, .close ∉ react calls) (c : Connection) :
    Ends (callHandler w call react) c (fun _ c' => Undisturbed c c') fun _ _ => False := by
  rw [callHandler, record, ends_bind, ends_modify, ends_bind, ends_get]
  refine ends_forM (fun call hcall c' hc' => ?_) ⟨rfl, rfl, Output.Quiet.refl _⟩
  have hnot : call ≠ .close := by
    rintro rfl
    exact h _ hcall
  exact (undisturbed_of_returns (wsCall_undisturbed hnot) c').mono (fun _ _ => hc'.trans)
    fun _ _ => id

/-- After a message the connection is closed, if that is what the message is for, or undisturbed. -/
theorem dispatchMessage_ends (hw : NeverCloses w) (messageState : MessageState) (message : Bytes)
    (c : Connection) :
    Ends (dispatchMessage w messageState message) c
      (fun goOn c' => if messageState = .error ∨ messageState = .close then
          goOn = none ∧ c'.state = c.state ∧ c'.alive = c.alive ∧ c'.closed = true
        else goOn = some (decide (messageState ≠ .noMessage)) ∧ Undisturbed c c') fun _ _ => False := by
  have close : Ends (closeInternal >>= fun _ => pure (none : Option Bool)) c
      (fun goOn c' => goOn = none ∧ c'.state = c.state ∧ c'.alive = c.alive ∧ c'.closed = true)
      fun _ _ => False := by
    rw [ends_bind, closeInternal, ends_liftOut]
    exact (Output.closeInternal_closes c.out).mono fun _ _ h => ⟨rfl, rfl, rfl, h.2⟩
  have goOn : ∀ c' : Connection, Undisturbed c c' → some true = some true ∧ Undisturbed c c' :=
    fun _ h => ⟨rfl, h⟩
  cases messageState with
  | error | close => exact close
  | noMessage => exact ⟨rfl, Undisturbed.refl c⟩
  | pong => exact goOn c (Undisturbed.refl c)
  | ping =>
      rw [dispatchMessage, ends_bind]
      exact (undisturbed_of_returns (sendHybi_undisturbed _ _) c).mono (fun _ => goOn) fun _ _ => id
  | textMessage =>
      rw [dispatchMessage, handleWebSocketTextMessage, bind_assoc, ends_bind, ends_get]
      cases c.webSocketHandler with
      | none => exact goOn c (Undisturbed.refl c)
      | some handler =>
          rw [ends_bind]
          exact (callHandler_undisturbed (fun calls => (hw calls handler _).1) c).mono
            (fun _ => goOn) fun _ _ => id
  | binaryMessage =>
      rw [dispatchMessage, handleWebSocketBinaryMessage, bind_assoc, ends_bind, ends_get]
      cases c.webSocketHandler with
      | none => exact goOn c (Undisturbed.refl c)
      | some handler =>
          rw [ends_bind]
          exact (callHandler_undisturbed (fun calls => (hw calls handler _).2) c).mono
            (fun _ => goOn) fun _ _ => id

/-- What the loop leaves of a stream: an incomplete frame at its end. -/
def Leaves (stream rest : Bytes) : Prop :=
  rest <:+ stream ∧ scan rest = .incomplete ∧
    ∀ more, AllFrames Modest (stream ++ more) → AllFrames Modest (rest ++ more)

theorem Leaves.of_drop {stream rest : Bytes} {f : Frame} {size : Nat}
    (hscan : scan stream = .frame f size) (h : Leaves (stream.drop size) rest) :
    Leaves stream rest := by
  refine ⟨h.1.trans (List.drop_suffix _ _), h.2.1, fun more hmodest => h.2.2 more ?_⟩
  have htail := hmodest.tail (scan_append_frame hscan more)
  rwa [List.drop_append_of_le_length (scan_size hscan).2] at htail

/-- What the loop over a stream leads to. -/
structure Consumed (stream : Bytes) (c : Connection) (rest : Option Bytes) (c' : Connection) :
    Prop where
  state : c'.state = c.state
  alive : c'.alive = c.alive
  closed : rest = none → c'.closed = true
  left : ∀ left ∈ rest, Undisturbed c c' ∧ Leaves stream left

theorem consume_ends (hw : NeverCloses w) {fuel : Nat} {stream : Bytes} (hfuel : stream.length < fuel)
    (c : Connection) :
    Ends (consume w fuel stream) c
      (fun rest c' => rest = unread fuel stream ∧ Consumed stream c rest c') fun _ _ => False := by
  induction fuel generalizing stream c with
  | zero => omega
  | succ fuel ih =>
      rw [consume, unread]
      cases hscan : scan stream with
      | incomplete =>
          refine ⟨rfl, rfl, rfl, nofun, fun left hleft => ⟨Undisturbed.refl c, ?_⟩⟩
          obtain rfl := Option.mem_some_iff.mp hleft
          exact ⟨List.suffix_rfl, hscan, fun _ => id⟩
      | invalid =>
          dsimp only
          rw [ends_bind, closeInternal, ends_liftOut]
          exact (Output.closeInternal_closes c.out).mono fun _ _ h =>
            ⟨rfl, rfl, rfl, fun _ => h.2, nofun⟩
      | frame f size =>
          have hsize := scan_size hscan
          dsimp only
          rw [record, ends_bind, ends_modify, ends_bind]
          refine (dispatchMessage_ends hw _ _ _).mono (fun goOn c₁ h₁ => ?_) fun _ _ => id
          by_cases hstops : messageStateOf f.opcode = .error ∨ messageStateOf f.opcode = .close
          · rw [if_pos hstops] at h₁ ⊢
            obtain ⟨rfl, hstate, halive, hclosed⟩ := h₁
            exact ⟨rfl, hstate, halive, fun _ => hclosed, nofun⟩
          · rw [if_neg hstops] at h₁ ⊢
            obtain ⟨rfl, hundisturbed⟩ := h₁
            have h₁ : Undisturbed c c₁ := hundisturbed
            refine (ih (by rw [List.length_drop]; omega) c₁).mono (fun rest c₂ h₂ => ?_) fun _ _ => id
            obtain ⟨hrest, hstate, halive, hclosed, hleft⟩ := h₂
            refine ⟨hrest, hstate.trans h₁.1, halive.trans h₁.2.1, hclosed, fun left hmem => ?_⟩
            obtain ⟨hquiet, hleaves⟩ := hleft left hmem
            exact ⟨h₁.trans hquiet, hleaves.of_drop hscan⟩

theorem exists_run_consume (hw : NeverCloses w) (stream : Bytes) {fuel : Nat}
    (hfuel : stream.length < fuel) (c : Connection) :
    ∃ c', (consume w fuel stream).run c = .ok (unread fuel stream) c' ∧
      Consumed stream c (unread fuel stream) c' := by
  have hends := consume_ends hw hfuel c
  unfold Ends at hends
  cases hrun : (consume w fuel stream).run c with
  | ok rest c' =>
      rw [hrun] at hends
      obtain ⟨rfl, h⟩ := hends
      exact ⟨c', rfl, h⟩
  | error e c' =>
      rw [hrun] at hends
      exact hends.elim

/-- The loop does not survive a length that is cut off behind another frame. -/
theorem hybiLoop_cutOff (hw : NeverCloses w) (buffer : Bytes) {fuel messageStart : Nat}
    (hstart : messageStart ≤ buffer.length) (hfuel : buffer.length - messageStart < fuel)
    (hmodest : AllFrames Modest (buffer.drop messageStart)) (hcut : ¬ LengthsWhole buffer messageStart)
    (c : Connection) :
    ∃ c', (hybiLoop w buffer fuel messageStart).run c = .error (.fault .outOfRange) c' := by
  induction fuel generalizing messageStart c with
  | zero => omega
  | succ fuel ih =>
      rw [hybiLoop]
      by_cases hhead : LengthCutOff buffer messageStart
      · rw [decodeNextMessage_cutOff [] false hhead]
        exact ⟨c, rfl⟩
      · rw [lengthsWhole_iff, not_and_or, not_not, or_iff_right hhead] at hcut
        push Not at hcut
        obtain ⟨f, size, hscan, hpasses, hrest⟩ := hcut
        obtain ⟨hplain, hpayload⟩ := hmodest.head.frame hscan
        have hsize := scan_size hscan
        rw [List.length_drop] at hsize
        have hstops : ¬ (messageStateOf f.opcode = .error ∨ messageStateOf f.opcode = .close) := by
          obtain ⟨f', size', hscan', herror, hclose⟩ := hpasses
          rw [hscan] at hscan'
          injection hscan' with hf
          rw [hf, not_or]
          exact ⟨herror, hclose⟩
        rw [decodeNextMessage_frame [] false hscan hpayload]
        dsimp only
        rw [if_pos (by omega), record, run_modify_bind, inflateMessage_of_plain hplain, pure_bind]
        dsimp only
        generalize hrecorded : ({ c with calls := _ } : Connection) = c₁
        have hends := dispatchMessage_ends hw (messageStateOf f.opcode) f.payload c₁
        rw [Ends] at hends
        rw [EStateM.run_bind]
        cases hrun : (dispatchMessage w (messageStateOf f.opcode) f.payload).run c₁ with
        | error e c₂ =>
            rw [hrun] at hends
            exact hends.elim
        | ok goOn c₂ =>
            rw [hrun] at hends
            dsimp only at hends
            rw [if_neg hstops, decide_eq_true (messageStateOf_ne_noMessage _)] at hends
            obtain ⟨rfl, -⟩ := hends
            refine ih (by omega) (by omega) ?_ hrest c₂
            rw [← List.drop_drop]
            exact hmodest.tail hscan

end Seasocks.Connection
