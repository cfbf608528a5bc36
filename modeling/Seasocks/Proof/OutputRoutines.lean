import Seasocks.Proof.OutputStream
import Seasocks.StaticData
import Seasocks.WebSocket

/-!
# What the output routines do

Each of them is a sequence of the operations of `Op`: nothing touches the output buffer or the socket
in another way.
-/

namespace Seasocks.Output

open Program

variable {w : World}

def OpStep (w : World) (o o' : Output) : Prop := ∃ op : Op, o' = op.run w o

/-- The operations all routines but the error pages are made of. -/
inductive BufferStep (w : World) : Output → Output → Prop where
  | write {o : Output} (data : Bytes) (flushIt : Bool) :
      BufferStep w o ((Output.write w data flushIt).run o).2
  | flush {o : Output} : BufferStep w o ((Output.flush w).run o).2

theorem BufferStep.op {o o' : Output} (h : BufferStep w o o') : OpStep w o o' := by
  cases h with
  | write data flushIt => exact ⟨.write data flushIt, rfl⟩
  | flush => exact ⟨.flush, rfl⟩

theorem write_runs (data : Bytes) (flushIt : Bool) : Runs (BufferStep w) (write w data flushIt) :=
  Runs.single fun _ => .write data flushIt

theorem flush_runs : Runs (BufferStep w) (flush w) := Runs.single fun _ => .flush

theorem handleDataReadyForWrite_runs : Runs (OpStep w) (handleDataReadyForWrite w) :=
  Runs.single fun _ => ⟨.handleDataReadyForWrite, rfl⟩

theorem closeWhenEmpty_runs : Runs (OpStep w) closeWhenEmpty :=
  Runs.single fun _ => ⟨.closeWhenEmpty, rfl⟩

theorem closeInternal_runs : Runs (OpStep w) closeInternal :=
  Runs.single fun _ => ⟨.closeInternal, rfl⟩

theorem close_runs : Runs (OpStep w) close := Runs.single fun _ => ⟨.close, rfl⟩

/-! ### Lines and pages -/

theorem bufferLine_runs (line : Bytes) : Runs (BufferStep w) (bufferLine w line) := write_runs _ _

theorem bufferText_runs (line : String) : Runs (BufferStep w) (bufferText w line) :=
  (write_runs _ _).bind fun _ => (write_runs _ _).ite (Runs.pure _)

theorem bufferResponseAndCommonHeaders_runs (code : ResponseCode) :
    Runs (BufferStep w) (bufferResponseAndCommonHeaders w code) := by
  refine (bufferLine_runs _).bind fun _ => (bufferLine_runs _).bind fun _ => ?_
  refine Runs.get_bind fun _ => (bufferLine_runs _).bind fun _ => ?_
  exact (bufferText_runs _).bind fun _ => Runs.pure _

theorem sendError_runs (code : ResponseCode) (body : Bytes) :
    Runs (OpStep w) (sendError w code body) := by
  have line : ∀ line : Bytes, Runs (OpStep w) (bufferLine w line) := fun line =>
    (bufferLine_runs line).mono fun _ _ => BufferStep.op
  have text : ∀ line : String, Runs (OpStep w) (bufferText w line) := fun line =>
    (bufferText_runs line).mono fun _ _ => BufferStep.op
  have headers := (bufferResponseAndCommonHeaders_runs (w := w) code).mono fun _ _ => BufferStep.op
  refine headers.bind fun _ => (line _).bind fun _ => (text _).bind fun _ => (text _).bind fun _ => ?_
  refine (line _).bind fun _ => (flush_runs.mono fun _ _ => BufferStep.op).bind fun _ => ?_
  exact (closeWhenEmpty_runs.bind fun _ => Runs.pure _).ite (Runs.pure _)

theorem bufferContentHeaders_runs (type : Bytes) (size : Nat) :
    Runs (BufferStep w) (bufferContentHeaders w type size) := by
  refine (bufferResponseAndCommonHeaders_runs _).bind fun _ => (bufferLine_runs _).bind fun _ => ?_
  refine (bufferLine_runs _).bind fun _ => (bufferText_runs _).bind fun _ => ?_
  exact bufferText_runs _

theorem sendData_runs (type content : Bytes) : Runs (BufferStep w) (sendData w type content) :=
  (bufferContentHeaders_runs _ _).bind fun _ => write_runs _ _

/-! ### WebSocket frames and handshakes -/

theorem writeHybiLength_runs (messageLength : Nat) :
    Runs (BufferStep w) (writeHybiLength w messageLength) := by
  have long : ∀ first rest : Bytes, Runs (BufferStep w) (do
      if ← write w first false then
        write w rest false
      else
        return false) := fun first rest =>
    (write_runs _ _).bind fun _ => (write_runs _ _).ite (Runs.pure _)
  exact (write_runs _ _).ite ((long _ _).ite (long _ _))

theorem sendHybiData_runs (message : Bytes) : Runs (BufferStep w) (sendHybiData w message) :=
  (writeHybiLength_runs _).bind fun _ =>
    ((write_runs _ _).bind fun _ => Runs.pure _).ite (Runs.pure _)

theorem pickProtocol_runs (request : PageRequest) (webSocketHandler : Option HandlerId) :
    Runs (BufferStep w) (pickProtocol w request webSocketHandler) := by
  unfold pickProtocol
  cases webSocketHandler with
  | none => exact Runs.pure _
  | some handler =>
      refine Runs.ite ?_ (Runs.pure _)
      exact ((bufferLine_runs _).bind fun _ => Runs.pure _).ite (Runs.pure _)

theorem hybiHandshake_runs (request : PageRequest) (webSocketHandler : Option HandlerId)
    (webSocketKey : Bytes) (perMessageDeflate : Bool) :
    Runs (BufferStep w)
      (hybiHandshake w request webSocketHandler webSocketKey perMessageDeflate) := by
  refine (bufferResponseAndCommonHeaders_runs _).bind fun _ => (bufferText_runs _).bind fun _ => ?_
  refine (bufferText_runs _).bind fun _ => (bufferLine_runs _).bind fun _ => ?_
  have rest : Runs (BufferStep w) (do
      pickProtocol w request webSocketHandler
      let _ ← bufferText w ""
      let _ ← flush w) :=
    (pickProtocol_runs _ _).bind fun _ => (bufferText_runs _).bind fun _ =>
      flush_runs.bind fun _ => Runs.pure _
  exact ((bufferText_runs _).bind fun _ => rest).ite rest

theorem hixieHandshake_runs (request : PageRequest) (webSocketHandler : Option HandlerId)
    (digest : Bytes) : Runs (BufferStep w) (hixieHandshake w request webSocketHandler digest) := by
  refine (bufferResponseAndCommonHeaders_runs _).bind fun _ => (bufferText_runs _).bind fun _ => ?_
  refine (bufferText_runs _).bind fun _ => ?_
  have rest : Runs (BufferStep w) (do
      pickProtocol w request webSocketHandler
      let _ ← bufferText w ""
      let _ ← write w digest true) :=
    (pickProtocol_runs _ _).bind fun _ => (bufferText_runs _).bind fun _ =>
      (write_runs _ _).bind fun _ => Runs.pure _
  refine Runs.ite ((bufferLine_runs _).bind fun _ => ?_) ?_
  all_goals
    refine Runs.ite ?_ rest
    refine Runs.ite ((bufferLine_runs _).bind fun _ => ?_) ?_
    all_goals exact (bufferLine_runs _).bind fun _ => rest

/-! ### Static files -/

theorem processRangesForStaticData_runs (origRanges : List Range) (fileSize : Int) :
    Runs (BufferStep w) (processRangesForStaticData w origRanges fileSize) := by
  refine Runs.ite ?_ ?_
  · exact (bufferResponseAndCommonHeaders_runs _).bind fun _ => (bufferLine_runs _).bind fun _ =>
      Runs.pure _
  · exact (bufferResponseAndCommonHeaders_runs _).bind fun _ => (bufferLine_runs _).bind fun _ =>
      (bufferLine_runs _).bind fun _ => Runs.pure _

theorem copyRange_runs (path content : Bytes) (fuel offset : Nat) (bytesLeft : Int) :
    Runs (BufferStep w) (copyRange w path content fuel offset bytesLeft) := by
  induction fuel generalizing offset bytesLeft with
  | zero => exact Runs.pure _
  | succ fuel ih =>
      refine (Runs.pure _).ite (Runs.get_bind fun o => ?_)
      cases w.readFile o.log path offset (readAmount bytesLeft) with
      | none => exact Runs.pure _
      | some bytesRead =>
          refine (Runs.pure _).ite ((Runs.pure _).ite ?_)
          exact (write_runs _ _).bind fun _ => (ih _ _).ite (Runs.pure _)

theorem copyRanges_runs (path content : Bytes) (ranges : List Range) :
    Runs (BufferStep w) (copyRanges w path content ranges) := by
  induction ranges with
  | nil => exact Runs.pure _
  | cons range ranges ih =>
      refine Runs.get_bind fun o => (Runs.pure _).ite ?_
      refine (copyRange_runs _ _ _ _ _).bind fun result => ?_
      rcases result with f | _ | _
      · exact Runs.pure _
      · exact Runs.pure _
      · exact ih

theorem sendFile_runs (path : Bytes) (file : File) (ranges : List Range) :
    Runs (BufferStep w) (sendFile w path file ranges) := by
  refine (processRangesForStaticData_runs _ _).bind fun ranges => (bufferLine_runs _).bind fun _ => ?_
  refine (bufferText_runs _).bind fun _ => (bufferText_runs _).bind fun _ => ?_
  refine (bufferLine_runs _).bind fun _ => ?_
  have rest : Runs (BufferStep w) (do
      let _ ← bufferText w ""
      if ← flush w then
        copyRanges w path file.content ranges
      else
        return .ok false) :=
    (bufferText_runs _).bind fun _ => flush_runs.bind fun _ =>
      (copyRanges_runs _ _ _).ite (Runs.pure _)
  refine Runs.ite ?_ rest
  refine (bufferText_runs _).bind fun _ => (bufferText_runs _).bind fun _ => ?_
  exact Runs.get_bind fun _ => (bufferLine_runs _).bind fun _ => rest

end Seasocks.Output
