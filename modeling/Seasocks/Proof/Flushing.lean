import Seasocks.Proof.OutputFlags

/-!
# Flushing

On a system where `epoll_ctl` succeeds, an operation that flushes leaves the output buffer empty, or
registered for write events, or the connection closed.
-/

namespace Seasocks.Output

open Program Relation

variable {w : World} {o : Output}

/-- What is in the buffer will be sent without waiting for input, if the connection is open. -/
def Settled (o : Output) : Prop :=
  o.closed = true ∨ o.outBuf = [] ∨ o.registeredForWriteEvents = true

/-- The error flag is clear, and a connection that no longer accepts writes is settled already. -/
def Steady (o : Output) : Prop := o.hadSendError = false ∧ (o.closeOnEmpty = true → Settled o)

def EpollSucceeds (w : World) : Prop := ∀ log wantWrite, w.epollMod log wantWrite = true

theorem closing_of_closed (h : o.closed = true) : o.closing = true := by
  rw [closing, h, Bool.true_or]

theorem steady_of_settled (hnoError : o.hadSendError = false) (h : Settled o) : Steady o :=
  ⟨hnoError, fun _ => h⟩

/-! ### The flags -/

/-- Neither the error flag nor the mark to close is touched. -/
def SameFlags (o o' : Output) : Prop :=
  o'.hadSendError = o.hadSendError ∧ o'.closeOnEmpty = o.closeOnEmpty

theorem SameFlags.trans {o' o'' : Output} (h : SameFlags o o') (h' : SameFlags o' o'') :
    SameFlags o o'' := ⟨h'.1.trans h.1, h'.2.trans h.2⟩

theorem closeInternal_sameFlags (o : Output) :
    After closeInternal o fun _ o' => SameFlags o o' ∧ o'.outBuf = o.outBuf := by
  simp only [closeInternal, record, after_bind, after_get, after_ite, after_modify]
  simp [SameFlags]

theorem safeSend_sameFlags (data : Bytes) :
    After (safeSend w data) o fun _ o' => SameFlags o o' ∧ o'.outBuf = o.outBuf := by
  simp only [safeSend, record, after_bind, after_get, after_ite, after_modify, after_pure]
  refine ⟨fun _ => by simp [SameFlags], fun _ => ?_⟩
  cases w.send o.log data with
  | sent count => exact ⟨⟨rfl, rfl⟩, rfl⟩
  | wouldBlock => exact ⟨⟨rfl, rfl⟩, rfl⟩
  | failed => exact (closeInternal_sameFlags _).bind fun _ _ h => h

theorem updateWriteEvents_sameFlags : After (updateWriteEvents w) o fun _ o' => SameFlags o o' :=
  updateWriteEvents_adjusts.mono fun _ _ hadjusts => by cases hadjusts <;> exact ⟨rfl, rfl⟩

theorem flush_sameFlags : After (flush w) o fun _ o' => SameFlags o o' := by
  simp only [flush, after_bind, after_get, after_ite, after_modify, after_pure]
  refine ⟨fun _ => ⟨rfl, rfl⟩, fun _ => ?_⟩
  refine (safeSend_sameFlags o.outBuf).mono fun sent o₁ h₁ => ⟨fun _ => h₁.1, fun _ => ?_⟩
  refine updateWriteEvents_sameFlags.mono fun updated o₂ h₂ => ?_
  have hsame : SameFlags o o₂ := h₁.1.trans h₂
  refine ⟨fun _ => ⟨fun _ => ?_, fun _ => hsame⟩, fun _ => hsame⟩
  exact (closeInternal_sameFlags o₂).mono fun _ o₃ h₃ => hsame.trans h₃.1

theorem bufferAndFlush_sameFlags (data : Bytes) (flushIt : Bool) :
    After (bufferAndFlush w data flushIt) o fun _ o' => SameFlags o o' := by
  simp only [bufferAndFlush, record, after_bind, after_get, after_ite, after_modify, after_pure]
  refine ⟨fun _ => (closeInternal_sameFlags _).mono fun _ _ h => h.1, fun _ => ?_⟩
  exact ⟨fun _ => flush_sameFlags.mono fun _ _ h => h, fun _ => ⟨rfl, rfl⟩⟩

theorem write_sameFlags (data : Bytes) (flushIt : Bool) :
    After (write w data flushIt) o fun _ o' => SameFlags o o' := by
  simp only [write, record, after_bind, after_get, after_ite, after_modify, after_pure]
  refine ⟨fun _ => ⟨rfl, rfl⟩, fun _ => ⟨fun _ => ⟨fun _ => ?_, fun _ => ⟨rfl, rfl⟩⟩, fun _ => ?_⟩⟩
  · exact flush_sameFlags.mono fun _ _ h => h
  · refine ⟨fun _ => ?_, fun _ => (bufferAndFlush_sameFlags _ _).mono fun _ _ h => h⟩
    refine (safeSend_sameFlags data).mono fun sent o₁ h₁ => ?_
    refine ⟨fun _ => h₁.1, fun _ => ⟨fun _ => h₁.1, fun _ => ?_⟩⟩
    exact (bufferAndFlush_sameFlags _ _).mono fun _ _ h => h₁.1.trans h

/-- The error flag is never set. -/
theorem OpStep.noError {o' : Output} (h : OpStep w o o') (hnoError : o.hadSendError = false) :
    o'.hadSendError = false := by
  obtain ⟨op, rfl⟩ := h
  cases op with
  | write data flushIt => exact (write_sameFlags (w := w) (o := o) data flushIt).run.1.trans hnoError
  | flush => exact (flush_sameFlags (w := w) (o := o)).run.1.trans hnoError
  | handleDataReadyForWrite =>
      have hready : After (handleDataReadyForWrite w) o fun _ o' => o'.hadSendError = false := by
        simp only [handleDataReadyForWrite, after_bind, after_get, after_ite, after_pure]
        exact ⟨fun _ => hnoError, fun _ => flush_sameFlags.mono fun _ _ h => h.1.trans hnoError⟩
      exact hready.run
  | closeInternal => exact (closeInternal_sameFlags o).run.1.1.trans hnoError
  | close => exact (closeInternal_sameFlags { o with shutdownByUser := true }).run.1.1.trans hnoError
  | closeWhenEmpty =>
      have hempty : After closeWhenEmpty o fun _ o' => o'.hadSendError = false := by
        simp only [closeWhenEmpty, after_bind, after_get, after_ite, after_modify]
        exact ⟨fun _ => (closeInternal_sameFlags o).run.1.1.trans hnoError, fun _ => hnoError⟩
      exact hempty.run

/-- What is closed or closing stays so. -/
theorem OpStep.closing {o' : Output} (h : OpStep w o o') (hclosing : o.closing = true) :
    o'.closing = true := by
  have marked : o'.closeOnEmpty = o.closeOnEmpty → o'.closing = true := by
    intro hsame
    rw [Output.closing, Bool.or_eq_true] at hclosing ⊢
    rw [hsame]
    exact hclosing.imp_left h.closed
  obtain ⟨op, rfl⟩ := h
  cases op with
  | write data flushIt => exact marked (write_sameFlags (w := w) (o := o) data flushIt).run.2
  | flush => exact marked (flush_sameFlags (w := w) (o := o)).run.2
  | handleDataReadyForWrite =>
      have hready : After (handleDataReadyForWrite w) o
          fun _ o' => o'.closeOnEmpty = o.closeOnEmpty := by
        simp only [handleDataReadyForWrite, after_bind, after_get, after_ite, after_pure]
        exact ⟨fun _ => trivial, fun _ => flush_sameFlags.mono fun _ _ h => h.2⟩
      exact marked hready.run
  | closeInternal => exact marked (closeInternal_sameFlags o).run.1.2
  | close => exact marked (closeInternal_sameFlags { o with shutdownByUser := true }).run.1.2
  | closeWhenEmpty => exact (closeWhenEmpty_closing o).run

/-! ### The operations -/

/-- A send that fails closes the connection. -/
theorem safeSend_failed (data : Bytes) (hnoError : o.hadSendError = false) :
    After (safeSend w data) o fun sent o' => sent = -1 → o'.closed = true := by
  simp only [safeSend, record, after_bind, after_get, after_ite, after_modify, after_pure]
  constructor
  · intro hclosed
    simpa [closed, hnoError] using hclosed
  · intro _
    cases w.send o.log data with
    | sent count =>
        simp only [after_bind, after_modify, after_pure]
        intro hfailed
        omega
    | wouldBlock => simp
    | failed => exact (closeInternal_closes _).bind fun _ _ h _ => h.2

theorem updateWriteEvents_settled (hepoll : EpollSucceeds w) :
    After (updateWriteEvents w) o fun updated o' => updated = true ∧
      (o'.outBuf = [] ∨ o'.registeredForWriteEvents = true) := by
  have hinterest : o.outBuf = [] ∨ decide (o.outBuf ≠ []) = true :=
    (em _).imp_right decide_eq_true
  refine updateWriteEvents_adjusts.mono fun updated o' hadjusts => ?_
  cases hadjusts with
  | kept hright => exact ⟨rfl, hright ▸ hinterest⟩
  | changed => exact ⟨rfl, hinterest⟩
  | failed hwrong hfailed =>
      rw [hepoll] at hfailed
      cases hfailed

theorem flush_settled (hepoll : EpollSucceeds w) (hnoError : o.hadSendError = false) :
    After (flush w) o fun done o' => Settled o' ∧ (done = false → o'.closed = true) := by
  simp only [flush, after_bind, after_get, after_ite, after_modify, after_pure]
  refine ⟨fun hempty => by simp [Settled, hempty], fun _ => ?_⟩
  refine (safeSend_failed o.outBuf hnoError).mono fun sent o₁ hfailed => ?_
  refine ⟨fun hsent => ⟨Or.inl (hfailed hsent), fun _ => hfailed hsent⟩, fun _ => ?_⟩
  refine (updateWriteEvents_settled hepoll).mono fun updated o₂ h₂ => ?_
  obtain ⟨hupdated, hsettled⟩ := h₂
  refine ⟨fun _ => ⟨fun _ => ?_, fun _ => ⟨Or.inr hsettled, by simp⟩⟩, fun hnot => absurd hupdated hnot⟩
  exact (closeInternal_closes o₂).mono fun _ o₃ h₃ => ⟨Or.inl h₃.2, by simp⟩

theorem bufferAndFlush_settled (data : Bytes) (flushIt : Bool) (hepoll : EpollSucceeds w)
    (hnoError : o.hadSendError = false) :
    After (bufferAndFlush w data flushIt) o fun done o' =>
      (flushIt = true → Settled o') ∧ (done = false → o'.closed = true) := by
  simp only [bufferAndFlush, record, after_bind, after_get, after_ite, after_modify, after_pure]
  refine ⟨fun _ => ?_, fun _ => ⟨fun _ => ?_, fun hlater => ?_⟩⟩
  · exact (closeInternal_closes _).mono fun _ o' h => ⟨fun _ => Or.inl h.2, fun _ => h.2⟩
  · have hbuffered : ({ o with outBuf := o.outBuf ++ data } : Output).hadSendError = false := hnoError
    exact (flush_settled hepoll hbuffered).mono fun done o' h => ⟨fun _ => h.1, h.2⟩
  · simp [hlater]

/-- A write that is refused leaves everything as it is; any other one that flushes settles the output. -/
theorem write_settled (data : Bytes) (flushIt : Bool) (hepoll : EpollSucceeds w) (hsteady : Steady o) :
    After (write w data flushIt) o fun done o' =>
      (flushIt = true → Settled o') ∧ (done = false → o'.closing = true) := by
  obtain ⟨hnoError, hclosing⟩ := hsteady
  have hdone : ∀ {done : Bool} {o' : Output},
      (flushIt = true → Settled o') ∧ (done = false → o'.closed = true) →
      (flushIt = true → Settled o') ∧ (done = false → o'.closing = true) := fun h =>
    ⟨h.1, fun hfailed => by rw [closing, h.2 hfailed, Bool.true_or]⟩
  have hwritten : ({ o with log := o.log ++ [.write data] } : Output).hadSendError = false := hnoError
  simp only [write, record, after_bind, after_get, after_ite, after_modify, after_pure]
  refine ⟨fun hrefused => ⟨fun _ => ?_, fun _ => hrefused⟩, fun _ => ?_⟩
  · rw [Bool.or_eq_true] at hrefused
    exact hrefused.elim Or.inl hclosing
  · refine ⟨fun _ => ⟨fun _ => ?_, fun hlater => ?_⟩, fun _ => ⟨fun hdirect => ?_, fun _ => ?_⟩⟩
    · exact (flush_settled hepoll hwritten).mono fun done o' h => hdone ⟨fun _ => h.1, h.2⟩
    · exact ⟨fun hnow => absurd hnow hlater, by simp⟩
    · refine ((safeSend_failed data hwritten).and (safeSend_sameFlags data)).mono fun sent o₁ h₁ => ?_
      obtain ⟨hfailed, ⟨hnoError₁, -⟩, houtBuf⟩ := h₁
      refine ⟨fun _ => ?_, fun _ => ⟨fun hsent => ?_, fun _ => ?_⟩⟩
      · exact ⟨fun _ => Or.inr (Or.inl (houtBuf.trans hdirect.1)), by simp⟩
      · have hclosed := hfailed hsent
        exact ⟨fun _ => Or.inl hclosed, fun _ => by rw [closing, hclosed, Bool.true_or]⟩
      · have hsent := hnoError₁.trans hwritten
        exact (bufferAndFlush_settled _ flushIt hepoll hsent).mono fun done o' h => hdone h
    · exact (bufferAndFlush_settled data flushIt hepoll hwritten).mono fun done o' h => hdone h

theorem write_steady (data : Bytes) (flushIt : Bool) (hsteady : Steady o) :
    After (write w data flushIt) o fun _ o' => Steady o' := by
  by_cases hcloseOnEmpty : o.closeOnEmpty = true
  · have hclosing : o.closing = true := by rw [closing, hcloseOnEmpty, Bool.or_true]
    simp only [write, after_bind, after_get, after_ite, after_pure]
    exact ⟨fun _ => hsteady, fun hopen => absurd hclosing hopen⟩
  · refine (write_sameFlags data flushIt).mono fun _ o' hsame => ⟨hsame.1.trans hsteady.1, fun h => ?_⟩
    exact absurd (hsame.2.symm.trans h) hcloseOnEmpty

/-! ### The routines -/

theorem settled_of_closing (hclosing : o.closing = true) (hsteady : Steady o) : Settled o := by
  rw [closing, Bool.or_eq_true] at hclosing
  exact hclosing.elim Or.inl hsteady.2

theorem steady_of_bufferSteps {o' : Output} (hepoll : EpollSucceeds w)
    (h : ReflTransGen (BufferStep w) o o') (hsteady : Steady o) : Steady o' := by
  refine invariant_of_steps Steady (fun a b ha hstep => ?_) h hsteady
  cases hstep with
  | write data flushIt => exact (write_steady data flushIt ha).run
  | flush =>
      have hnoError := (flush_sameFlags (w := w) (o := a)).run.1.trans ha.1
      exact steady_of_settled hnoError (flush_settled hepoll ha.1).run.1

/-- Whatever is written, the output stays steady. -/
theorem Steady.lines {α : Type} {m : OutM α} (hsteady : Steady o) (hepoll : EpollSucceeds w)
    (h : Runs (BufferStep w) m) : After m o fun _ o' => Steady o' :=
  (h o).mono fun _ _ hsteps => steady_of_bufferSteps hepoll hsteps hsteady

/-- The end of every routine that sends what it has produced. -/
theorem write_true_settled (data : Bytes) (hepoll : EpollSucceeds w) (hsteady : Steady o) :
    After (write w data true) o fun _ o' => Settled o' ∧ Steady o' :=
  ((write_settled data true hepoll hsteady).and (write_steady data true hsteady)).mono
    fun _ _ h => ⟨h.1.1 rfl, h.2⟩

/-- A write that does not flush can only fail on a connection that will not need it. -/
theorem write_false_settled (data : Bytes) (hepoll : EpollSucceeds w) (hsteady : Steady o) :
    After (write w data false) o fun done o' => Steady o' ∧ (done = false → Settled o') :=
  ((write_settled data false hepoll hsteady).and (write_steady data false hsteady)).mono
    fun _ _ h => ⟨h.2, fun hrefused => settled_of_closing (h.1.2 hrefused) h.2⟩

theorem flush_steady (hepoll : EpollSucceeds w) (hsteady : Steady o) :
    After (flush w) o fun done o' => Settled o' ∧ Steady o' ∧ (done = false → o'.closed = true) :=
  ((flush_settled hepoll hsteady.1).and flush_sameFlags).mono fun _ _ h =>
    ⟨h.1.1, steady_of_settled (h.2.1.trans hsteady.1) h.1.1, h.1.2⟩

theorem closeInternal_settled (hnoError : o.hadSendError = false) :
    After closeInternal o fun _ o' => o'.closed = true ∧ Settled o' ∧ Steady o' := by
  refine ((closeInternal_closes o).and (closeInternal_sameFlags o)).mono fun _ o' h => ?_
  obtain ⟨⟨-, hclosed⟩, ⟨hnoError', -⟩, -⟩ := h
  have hsettled : Settled o' := Or.inl hclosed
  exact ⟨hclosed, hsettled, steady_of_settled (hnoError'.trans hnoError) hsettled⟩

theorem closeWhenEmpty_settled (hsettled : Settled o) (hsteady : Steady o) :
    After closeWhenEmpty o fun _ o' => o'.closing = true ∧ Settled o' ∧ Steady o' := by
  simp only [closeWhenEmpty, after_bind, after_get, after_ite, after_modify]
  refine ⟨fun _ => ?_, fun _ => ?_⟩
  · refine (closeInternal_settled hsteady.1).mono fun _ o' h => ⟨?_, h.2⟩
    rw [closing, h.1, Bool.true_or]
  · exact ⟨by simp [closing], hsettled, steady_of_settled hsteady.1 hsettled⟩

/-- The end of `sendError` decides what holds after it. -/
theorem sendError_rule {inv : Output → Prop} {post : Bool → Output → Prop} (code : ResponseCode)
    (body : Bytes) (hsteps : ∀ o o', ReflTransGen (BufferStep w) o o' → inv o → inv o') (hinv : inv o)
    (hend : ∀ o, inv o → After (do
      if ← flush w then
        closeWhenEmpty
        return true
      else
        return false) o post) : After (sendError w code body) o post := by
  have lines : ∀ {α : Type} {m : OutM α} {f : α → OutM Bool} {o : Output}, Runs (BufferStep w) m →
      inv o → (∀ a o, inv o → After (f a) o post) → After (m >>= f) o post := fun hm ho hf =>
    After.bind (hm _) fun a o' hsteps' => hf a o' (hsteps _ o' hsteps' ho)
  refine lines (bufferResponseAndCommonHeaders_runs code) hinv fun _ o₁ h₁ => ?_
  refine lines (bufferLine_runs _) h₁ fun _ o₂ h₂ => lines (bufferText_runs _) h₂ fun _ o₃ h₃ => ?_
  refine lines (bufferText_runs _) h₃ fun _ o₄ h₄ => lines (bufferLine_runs _) h₄ fun _ o₅ h₅ => ?_
  exact hend o₅ h₅

theorem sendError_settled (code : ResponseCode) (body : Bytes) (hepoll : EpollSucceeds w)
    (hsteady : Steady o) :
    After (sendError w code body) o fun _ o' => o'.closing = true ∧ Settled o' ∧ Steady o' := by
  refine sendError_rule code body (fun _ _ => steady_of_bufferSteps hepoll) hsteady fun o ho => ?_
  refine (flush_steady hepoll ho).bind fun done o₁ h₁ => ?_
  rw [after_ite]
  refine ⟨fun _ => ?_, fun hfailed => after_pure.mpr ?_⟩
  · exact (closeWhenEmpty_settled h₁.1 h₁.2.1).bind fun _ _ h => h
  · have hclosed := h₁.2.2 (by simpa using hfailed)
    exact ⟨by rw [closing, hclosed, Bool.true_or], h₁.1, h₁.2.1⟩

theorem noError_of_bufferSteps {o' : Output} (h : ReflTransGen (BufferStep w) o o')
    (hnoError : o.hadSendError = false) : o'.hadSendError = false :=
  invariant_of_steps (fun o => o.hadSendError = false)
    (fun _ _ ho hstep => OpStep.noError hstep.op ho) h hnoError

/-- An error page that is produced at all closes the connection, at once or behind itself. -/
theorem sendError_closing (code : ResponseCode) (body : Bytes) (hepoll : EpollSucceeds w)
    (hnoError : o.hadSendError = false) :
    After (sendError w code body) o fun _ o' => o'.closing = true := by
  refine sendError_rule code body (fun _ _ => noError_of_bufferSteps) hnoError fun o ho => ?_
  refine (flush_settled hepoll ho).bind fun done o₁ h₁ => ?_
  rw [after_ite]
  refine ⟨fun _ => (closeWhenEmpty_closing o₁).bind fun _ _ h => h, fun hfailed => ?_⟩
  rw [after_pure, closing, h₁.2 (by simpa using hfailed), Bool.true_or]

theorem sendData_settled (type content : Bytes) (hepoll : EpollSucceeds w) (hsteady : Steady o) :
    After (sendData w type content) o fun _ o' => Settled o' ∧ Steady o' := by
  refine (hsteady.lines hepoll (bufferContentHeaders_runs _ _)).bind fun _ o₁ h₁ => ?_
  exact write_true_settled content hepoll h₁

theorem handleDataReadyForWrite_settled (hepoll : EpollSucceeds w) (hsteady : Steady o) :
    After (handleDataReadyForWrite w) o fun _ o' => Settled o' ∧ Steady o' := by
  simp only [handleDataReadyForWrite, after_bind, after_get, after_ite, after_pure]
  refine ⟨fun hclosed => ⟨Or.inl hclosed, hsteady⟩, fun _ => ?_⟩
  exact (flush_steady hepoll hsteady).mono fun _ _ h => ⟨h.1, h.2.1⟩

/-- Writing the parts of a frame, or of a Hixie message, one of which may be refused. -/
theorem write_bind_settled {data : Bytes} {m : OutM Bool} (hepoll : EpollSucceeds w)
    (hsteady : Steady o)
    (hm : ∀ o, Steady o → After m o fun done o' => (done = false → o'.closing = true) ∧ Steady o') :
    After (do if ← write w data false then m else return false) o fun done o' =>
      (done = false → o'.closing = true) ∧ Steady o' := by
  refine ((write_settled data false hepoll hsteady).and
    (write_steady data false hsteady)).bind fun done o₁ h₁ => ?_
  rw [after_ite]
  refine ⟨fun _ => hm o₁ h₁.2, fun hrefused => ?_⟩
  exact ⟨fun _ => h₁.1.2 (by simpa using hrefused), h₁.2⟩

theorem writeHybiLength_settled (messageLength : Nat) (hepoll : EpollSucceeds w)
    (hsteady : Steady o) :
    After (writeHybiLength w messageLength) o fun done o' =>
      (done = false → o'.closing = true) ∧ Steady o' := by
  have last : ∀ data o, Steady o → After (write w data false) o fun done o' =>
      (done = false → o'.closing = true) ∧ Steady o' := fun data o ho =>
    ((write_settled data false hepoll ho).and (write_steady data false ho)).mono
      fun _ _ h => ⟨h.1.2, h.2⟩
  rw [writeHybiLength, after_ite, after_ite]
  refine ⟨fun _ => last _ o hsteady, fun _ => ⟨fun _ => ?_, fun _ => ?_⟩⟩
  · exact write_bind_settled hepoll hsteady (last _)
  · exact write_bind_settled hepoll hsteady (last _)

theorem sendHybiData_settled (message : Bytes) (hepoll : EpollSucceeds w) (hsteady : Steady o) :
    After (sendHybiData w message) o fun _ o' => Settled o' ∧ Steady o' := by
  refine (writeHybiLength_settled message.length hepoll hsteady).bind fun done o₁ h₁ => ?_
  rw [after_ite]
  refine ⟨fun _ => write_true_settled message hepoll h₁.2, fun hrefused => ?_⟩
  exact ⟨settled_of_closing (h₁.1 (by simpa using hrefused)) h₁.2, h₁.2⟩

theorem hybiHandshake_settled (request : PageRequest) (webSocketHandler : Option HandlerId)
    (webSocketKey : Bytes) (perMessageDeflate : Bool) (hepoll : EpollSucceeds w)
    (hsteady : Steady o) :
    After (hybiHandshake w request webSocketHandler webSocketKey perMessageDeflate) o fun _ o' =>
      Settled o' ∧ Steady o' := by
  have rest : ∀ o, Steady o → After (do
      pickProtocol w request webSocketHandler
      let _ ← bufferText w ""
      let _ ← flush w) o fun _ o' => Settled o' ∧ Steady o' := by
    intro o ho
    refine (ho.lines hepoll (pickProtocol_runs _ _)).bind fun _ o₁ h₁ => ?_
    refine (h₁.lines hepoll (bufferText_runs _)).bind fun _ o₂ h₂ => ?_
    exact (flush_steady hepoll h₂).bind fun _ _ h => ⟨h.1, h.2.1⟩
  refine (hsteady.lines hepoll (bufferResponseAndCommonHeaders_runs _)).bind fun _ o₁ h₁ => ?_
  refine (h₁.lines hepoll (bufferText_runs _)).bind fun _ o₂ h₂ => ?_
  refine (h₂.lines hepoll (bufferText_runs _)).bind fun _ o₃ h₃ => ?_
  refine (h₃.lines hepoll (bufferLine_runs _)).bind fun _ o₄ h₄ => ?_
  rw [after_ite]
  refine ⟨fun _ => ?_, fun _ => rest o₄ h₄⟩
  exact (h₄.lines hepoll (bufferText_runs _)).bind fun _ o₅ h₅ => rest o₅ h₅

theorem hixieHandshake_settled (request : PageRequest) (webSocketHandler : Option HandlerId)
    (digest : Bytes) (hepoll : EpollSucceeds w) (hsteady : Steady o) :
    After (hixieHandshake w request webSocketHandler digest) o fun _ o' =>
      Settled o' ∧ Steady o' := by
  have rest : ∀ o, Steady o → After (do
      pickProtocol w request webSocketHandler
      let _ ← bufferText w ""
      let _ ← write w digest true) o fun _ o' => Settled o' ∧ Steady o' := by
    intro o ho
    refine (ho.lines hepoll (pickProtocol_runs _ _)).bind fun _ o₁ h₁ => ?_
    refine (h₁.lines hepoll (bufferText_runs _)).bind fun _ o₂ h₂ => ?_
    exact write_true_settled digest hepoll h₂
  have line : ∀ {α : Type} (m : OutM α) (f : α → OutM Unit) (o : Output), Steady o →
      Runs (BufferStep w) m → (∀ a o, Steady o → After (f a) o fun _ o' => Settled o' ∧ Steady o') →
      After (m >>= f) o fun _ o' => Settled o' ∧ Steady o' := fun m f o ho hm hf =>
    (ho.lines hepoll hm).bind hf
  have host : ∀ o, Steady o → After (do
      if request.hasHeader (ascii "Host") then
        let host := request.getHeader (ascii "Host")
        if !w.isCrossOriginAllowed request.requestUri then
          let _ ← bufferLine w (ascii "Sec-WebSocket-Origin: http://" ++ host)
        let _ ← bufferLine w
          (ascii "Sec-WebSocket-Location: ws://" ++ host ++ request.requestUri)
      pickProtocol w request webSocketHandler
      let _ ← bufferText w ""
      let _ ← write w digest true) o fun _ o' => Settled o' ∧ Steady o' := by
    intro o ho
    have location := fun o ho => line _ _ o ho
      (bufferLine_runs (ascii "Sec-WebSocket-Location: ws://" ++ request.getHeader (ascii "Host")
        ++ request.requestUri)) fun _ => rest
    rw [after_ite]
    refine ⟨fun _ => ?_, fun _ => rest o ho⟩
    rw [after_ite]
    refine ⟨fun _ => ?_, fun _ => location o ho⟩
    exact line _ _ o ho (bufferLine_runs _) fun _ => location
  refine line _ _ o hsteady (bufferResponseAndCommonHeaders_runs _) fun _ o₁ h₁ => ?_
  refine line _ _ o₁ h₁ (bufferText_runs _) fun _ o₂ h₂ => ?_
  refine line _ _ o₂ h₂ (bufferText_runs _) fun _ o₃ h₃ => ?_
  rw [after_ite]
  refine ⟨fun _ => ?_, fun _ => host o₃ h₃⟩
  exact line _ _ o₃ h₃ (bufferLine_runs _) fun _ => host

theorem copyRange_settled (path content : Bytes) (fuel offset : Nat) (bytesLeft : Int)
    (hepoll : EpollSucceeds w) (hsettled : Settled o) (hsteady : Steady o) :
    After (copyRange w path content fuel offset bytesLeft) o fun _ o' => Settled o' ∧ Steady o' := by
  induction fuel generalizing o offset bytesLeft with
  | zero => exact ⟨hsettled, hsteady⟩
  | succ fuel ih =>
      rw [copyRange, after_ite]
      refine ⟨fun _ => ⟨hsettled, hsteady⟩, fun _ => ?_⟩
      rw [after_bind, after_get]
      cases w.readFile o.log path offset (readAmount bytesLeft) with
      | none => exact ⟨hsettled, hsteady⟩
      | some bytesRead =>
          dsimp only
          rw [after_ite, after_ite]
          refine ⟨fun _ => ⟨hsettled, hsteady⟩, fun _ => ⟨fun _ => ⟨hsettled, hsteady⟩, fun _ => ?_⟩⟩
          refine (write_true_settled _ hepoll hsteady).bind fun done o₁ h₁ => ?_
          rw [after_ite]
          exact ⟨fun _ => ih _ _ h₁.1 h₁.2, fun _ => h₁⟩

theorem copyRanges_settled (path content : Bytes) (ranges : List Range) (hepoll : EpollSucceeds w)
    (hsettled : Settled o) (hsteady : Steady o) :
    After (copyRanges w path content ranges) o fun _ o' => Settled o' ∧ Steady o' := by
  induction ranges generalizing o with
  | nil => exact ⟨hsettled, hsteady⟩
  | cons range ranges ih =>
      rw [copyRanges, after_bind, after_get, after_ite]
      refine ⟨fun _ => ⟨hsettled, hsteady⟩, fun _ => ?_⟩
      refine (copyRange_settled _ _ _ _ _ hepoll hsettled hsteady).bind fun result o₁ h₁ => ?_
      rcases result with f | _ | _
      · exact h₁
      · exact h₁
      · exact ih h₁.1 h₁.2

theorem sendFile_settled (path : Bytes) (file : File) (ranges : List Range)
    (hepoll : EpollSucceeds w) (hsteady : Steady o) :
    After (sendFile w path file ranges) o fun _ o' => Settled o' ∧ Steady o' := by
  have rest : ∀ ranges o, Steady o → After (do
      let _ ← bufferText w ""
      if ← flush w then
        copyRanges w path file.content ranges
      else
        return .ok false) o fun _ o' => Settled o' ∧ Steady o' := by
    intro ranges o ho
    refine (ho.lines hepoll (bufferText_runs _)).bind fun _ o₁ h₁ => ?_
    refine (flush_steady hepoll h₁).bind fun done o₂ h₂ => ?_
    rw [after_ite]
    exact ⟨fun _ => copyRanges_settled _ _ _ hepoll h₂.1 h₂.2.1, fun _ => ⟨h₂.1, h₂.2.1⟩⟩
  refine (hsteady.lines hepoll (processRangesForStaticData_runs _ _)).bind fun ranges o₁ h₁ => ?_
  refine (h₁.lines hepoll (bufferLine_runs _)).bind fun _ o₂ h₂ => ?_
  refine (h₂.lines hepoll (bufferText_runs _)).bind fun _ o₃ h₃ => ?_
  refine (h₃.lines hepoll (bufferText_runs _)).bind fun _ o₄ h₄ => ?_
  refine (h₄.lines hepoll (bufferLine_runs _)).bind fun _ o₅ h₅ => ?_
  rw [after_ite]
  refine ⟨fun _ => ?_, fun _ => rest _ o₅ h₅⟩
  refine (h₅.lines hepoll (bufferText_runs _)).bind fun _ o₆ h₆ => ?_
  refine (h₆.lines hepoll (bufferText_runs _)).bind fun _ o₇ h₇ => ?_
  exact (h₇.lines hepoll (bufferLine_runs _)).bind fun _ o₈ h₈ => rest _ o₈ h₈

end Seasocks.Output
