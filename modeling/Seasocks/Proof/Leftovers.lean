import Seasocks.Proof.Conversations
import Seasocks.Proof.Recutting

/-!
# What a read leaves

The loop of a Hybi connection takes every complete frame, so that an incomplete one is all that is left in
the buffer of a connection that stays open.
-/

namespace Seasocks.Connection

open Program WebSocketFrame HybiPacketDecoder

variable {w : World} {c : Connection}

/-- Which messages the loop goes on behind. -/
theorem dispatchMessage_goesOn {messageState : MessageState} (payload : Bytes) :
    Ends (dispatchMessage w messageState payload) c
      (fun goOn _ => (goOn = some true → messageState ≠ .noMessage ∧ messageState ≠ .error) ∧
        (goOn = some false → messageState = .noMessage)) fun _ _ => False := by
  have closed : Ends (do
      closeInternal
      return none : ConnM (Option Bool)) c
      (fun goOn _ => (goOn = some true → messageState ≠ .noMessage ∧ messageState ≠ .error) ∧
        (goOn = some false → messageState = .noMessage)) fun _ _ => False := by
    rw [ends_bind]
    exact (closeInternal_sameInput c).mono (fun _ _ _ => ⟨by simp, by simp⟩) fun _ _ => id
  cases messageState with
  | noMessage => exact ⟨by simp, by simp⟩
  | pong => exact ⟨by simp, by simp⟩
  | error | close => exact closed
  | textMessage =>
      rw [dispatchMessage, ends_bind]
      exact (handleWebSocketTextMessage_sameInput _ c).mono (fun _ _ _ => ⟨by simp, by simp⟩) fun _ _ => id
  | binaryMessage =>
      rw [dispatchMessage, ends_bind]
      exact (handleWebSocketBinaryMessage_sameInput _ c).mono (fun _ _ _ => ⟨by simp, by simp⟩) fun _ _ => id
  | ping =>
      rw [dispatchMessage, ends_bind]
      exact (sendHybi_sends _ _ c).mono (fun _ _ _ => ⟨by simp, by simp⟩) fun _ _ => id

/-- The loop stops where no frame is complete. -/
theorem hybiLoop_left (inBuf : Bytes) {fuel messageStart : Nat} (hfuel : inBuf.length < messageStart + fuel) :
    Ends (hybiLoop w inBuf fuel messageStart) c
      (fun messageEnd _ => ∀ stop ∈ messageEnd, scan (inBuf.drop stop) = .incomplete) Faulted := by
  induction fuel generalizing messageStart c with
  | zero =>
      rintro stop ⟨⟩
      rw [List.drop_eq_nil_of_le (by omega)]
      rfl
  | succ fuel ih =>
      rw [hybiLoop]
      cases hdecode : decodeNextMessage inBuf messageStart [] false with
      | error f => exact ends_fault.mpr ⟨f, rfl⟩
      | ok decoded =>
          have turn : ∀ c₁ : Connection, Ends (hybiTurn w inBuf fuel decoded) c₁
              (fun messageEnd _ => ∀ stop ∈ messageEnd, scan (inBuf.drop stop) = .incomplete) Faulted := by
            intro c₁
            rw [hybiTurn, ends_bind]
            refine (inflateMessage_sameInput decoded).mono (fun message c₂ _ => ?_) fun _ _ => False.elim
            cases message with
            | none => rintro stop ⟨⟩
            | some message =>
                dsimp only
                rw [ends_bind]
                refine (dispatchMessage_goesOn message).mono (fun goOn c₃ hgoOn => ?_) fun _ _ => False.elim
                rcases goOn with - | - | -
                · rintro stop ⟨⟩
                · rintro stop ⟨⟩
                  have hnone := hgoOn.2 rfl
                  rcases decodeNextMessage_ok hdecode with ⟨-, rfl⟩ | ⟨hscan, -, -, hstay⟩ | ⟨f, size, -, rfl⟩
                  · cases hnone
                  · rwa [hstay]
                  · exact absurd hnone (messageStateOf_ne_noMessage f.opcode)
                · obtain ⟨hmessage, herror⟩ := hgoOn.1 rfl
                  rcases decodeNextMessage_ok hdecode with ⟨-, rfl⟩ | ⟨-, hnone, -⟩ | ⟨f, size, hscan, rfl⟩
                  · exact absurd rfl herror
                  · exact absurd hnone hmessage
                  · have hsize := scan_size hscan
                    refine ih ?_
                    dsimp only
                    omega
          dsimp only
          rw [ends_ite, ends_bind]
          exact ⟨fun _ => turn _, fun _ => turn c⟩

/-- A read by an upgraded connection leaves no complete frame unread. -/
theorem handleHybiWebSocket_left :
    Ends (handleHybiWebSocket w) c
      (fun _ c' => c'.closed = false → scan c'.inBuf = .incomplete ∧ stream c' = stream c) Faulted := by
  have hleft : Ends (handleHybiWebSocket w) c
      (fun _ c' => c'.closed = false → scan c'.inBuf = .incomplete) Faulted := by
    rw [handleHybiWebSocket, ends_bind, ends_get, ends_ite]
    refine ⟨fun _ => ?_, fun hempty _ => ?_⟩
    · rw [ends_bind]
      have hfuel : c.inBuf.length < 0 + (c.inBuf.length + 1) := by omega
      refine ((hybiLoop_left c.inBuf hfuel).and (hybiLoop_passed c.inBuf _ 0)).mono ?_ fun _ _ h => h.1
      rintro (- | numBytesDecoded) c' ⟨hincomplete, hinBuf, hpassed⟩
      · intro hopen
        rw [hpassed.1] at hopen
        cases hopen
      · dsimp only
        rw [ends_bind, ends_modify]
        refine (closeIfTooLong_sameInput _).mono (fun _ c'' hinput _ => ?_) fun _ _ => False.elim
        rw [hinput.1, hinBuf]
        exact hincomplete numBytesDecoded rfl
    · rw [not_not.mp hempty]
      rfl
  refine (hleft.and handleHybiWebSocket_intact).mono (fun _ c' h hopen => ⟨h.1 hopen, ?_⟩) fun _ _ h => h.1
  exact h.2.2.resolve_left (by simp [hopen])

theorem step_read_left (received : Piece) (hstate : c.state = .handlingHybiWebSocket) :
    Ends (step w (.readable (.data received))) c (fun _ c' => c.alive = true ∧ (c'.closed = false →
      scan c'.inBuf = .incomplete ∧ stream c' = stream c ++ received.val)) Faulted := by
  rw [step, ends_bind, ends_get]
  dsimp only
  rw [ends_ite]
  refine ⟨fun halive => ?_, fun _ => ends_fault.mpr ⟨_, rfl⟩⟩
  rw [handleDataReadyForRead, ends_bind, ends_get, ends_ite]
  refine ⟨fun _ => ?_, fun hclosed => ⟨halive, fun hopen => ?_⟩⟩
  · dsimp only
    rw [ends_bind, ends_set, handleNewData, ends_bind, ends_get, handleNewDataFrom, ends_bind, ends_get, hstate]
    refine handleHybiWebSocket_left.mono (fun _ c' h => ⟨halive, fun hopen => ?_⟩) fun _ _ => id
    obtain ⟨hincomplete, hstream⟩ := h hopen
    refine ⟨hincomplete, hstream.trans ?_⟩
    rw [stream, stream, List.append_assoc]
  · rw [hopen] at hclosed
    exact absurd rfl hclosed

end Seasocks.Connection
