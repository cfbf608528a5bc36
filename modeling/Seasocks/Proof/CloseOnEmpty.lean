import Seasocks.Proof.Emission
import Seasocks.Proof.EpollInterest

/-!
# Closing once the buffer is empty

What each operation of the output side does to a connection that is marked to close, and to what has been
written before the mark.
-/

namespace Seasocks.Output

open Program Relation

variable {w : World} {o : Output}

/-! ### The end of a flush -/

/-- A marked connection is closed as soon as its buffer is empty, unless the last thing that has happened
is a failure to unsubscribe from write events. -/
def Completed (o : Output) : Prop :=
  o.closeOnEmpty = true → o.outBuf = [] →
    o.closed = true ∨ o.log.getLast? = some (.epollMod false false)

theorem completed_of_unmarked (h : o.closeOnEmpty = false) : Completed o := by
  intro hmarked
  rw [h] at hmarked
  cases hmarked

theorem completed_of_closed (h : o.closed = true) : Completed o := fun _ _ => Or.inl h

/-- Only the change of the interest can fail, and then it is what the log ends with. -/
theorem updateWriteEvents_last :
    After (updateWriteEvents w) o fun updated o' => o'.outBuf = o.outBuf ∧
      (updated = false → o.outBuf = [] → o'.log.getLast? = some (.epollMod false false)) := by
  refine updateWriteEvents_adjusts.mono fun updated o' hadjusts => ?_
  cases hadjusts with
  | kept | changed => exact ⟨rfl, fun hfailed => by cases hfailed⟩
  | failed =>
      refine ⟨rfl, fun _ hempty => ?_⟩
      rw [List.getLast?_concat, decide_eq_false (not_not.mpr hempty)]

theorem flush_completed (h : Completed o) : After (flush w) o fun _ o' => Completed o' := by
  cases hmarked : o.closeOnEmpty with
  | false =>
      exact (flush_sameFlags (w := w) (o := o)).mono fun _ o' hsame =>
        completed_of_unmarked (hsame.2.trans hmarked)
  | true =>
      simp only [flush, after_bind, after_get, after_ite, after_modify, after_pure]
      refine ⟨fun _ => h, fun hfull => ?_⟩
      refine (safeSend_sameFlags o.outBuf).mono fun sent o₁ h₁ => ⟨fun _ _ hempty => ?_, fun _ => ?_⟩
      · rw [h₁.2] at hempty
        exact absurd hempty hfull
      · refine (updateWriteEvents_last.and updateWriteEvents_sameFlags).mono fun updated o₂ h₂ => ?_
        obtain ⟨⟨houtBuf, hlast⟩, hsame⟩ := h₂
        refine ⟨fun _ => ⟨fun _ => ?_, fun hopen _ hempty => ?_⟩, fun hfailed _ hempty => Or.inr ?_⟩
        · exact (closeInternal_closes o₂).mono fun _ o₃ h₃ => completed_of_closed h₃.2
        · have hmarked₂ : o₂.closeOnEmpty = true := hsame.2.trans (h₁.1.2.trans hmarked)
          refine Or.inl ?_
          by_contra hclosed
          exact hopen (by simp [hempty, hmarked₂, hclosed])
        · exact hlast (by simpa using hfailed) (houtBuf ▸ hempty)

theorem OpStep.completed {o' : Output} (hstep : OpStep w o o') (h : Completed o) : Completed o' := by
  obtain ⟨op, rfl⟩ := hstep
  cases op with
  | write data flushIt =>
      cases hmarked : o.closeOnEmpty with
      | false =>
          exact completed_of_unmarked ((write_sameFlags (w := w) (o := o) data flushIt).run.2.trans hmarked)
      | true =>
          have hrefused : (o.closed || o.closeOnEmpty) = true := by
            rw [hmarked, Bool.or_true]
          have hwrite : After (write w data flushIt) o fun _ o' => Completed o' := by
            rw [write, after_bind, after_get, if_pos hrefused]
            exact h
          exact hwrite.run
  | flush => exact (flush_completed h).run
  | handleDataReadyForWrite =>
      have hready : After (handleDataReadyForWrite w) o fun _ o' => Completed o' := by
        simp only [handleDataReadyForWrite, after_bind, after_get, after_ite, after_pure]
        exact ⟨fun _ => h, fun _ => flush_completed h⟩
      exact hready.run
  | closeInternal => exact completed_of_closed (closeInternal_closes o).run.2
  | close => exact completed_of_closed (closeInternal_closes { o with shutdownByUser := true }).run.2
  | closeWhenEmpty =>
      have hempty : After closeWhenEmpty o fun _ o' => Completed o' := by
        simp only [closeWhenEmpty, after_bind, after_get, after_ite, after_modify]
        refine ⟨fun _ => ?_, fun hfull _ hempty => absurd hempty hfull⟩
        exact (closeInternal_closes o).mono fun _ _ h => completed_of_closed h.2
      exact hempty.run

/-! ### What has been written -/

def writtenBy : OutEvent → Bytes
  | .write data => data
  | .send _ _ | .epollMod _ _ | .overflow | .shutdown | .closeFd => []

/-- The data of all writes that were taken up. -/
def written (log : List OutEvent) : Bytes := log.flatMap writtenBy

theorem written_append (log log' : List OutEvent) : written (log ++ log') = written log ++ written log' :=
  List.flatMap_append

theorem written_concat {event : OutEvent} (log : List OutEvent) (h : writtenBy event = []) :
    written (log ++ [event]) = written log := by
  rw [written_append, written, written, List.flatMap_singleton, h, List.append_nil]

theorem closeInternal_written (o : Output) :
    After closeInternal o fun _ o' => written o'.log = written o.log := by
  simp only [closeInternal, record, after_bind, after_get, after_ite, after_modify]
  exact ⟨fun _ => written_concat o.log rfl, fun _ => trivial⟩

theorem safeSend_written (data : Bytes) :
    After (safeSend w data) o fun _ o' => written o'.log = written o.log := by
  simp only [safeSend, record, after_bind, after_get, after_ite, after_modify, after_pure]
  refine ⟨fun _ => trivial, fun _ => ?_⟩
  cases w.send o.log data with
  | sent count => exact written_concat o.log rfl
  | wouldBlock => exact written_concat o.log rfl
  | failed =>
      exact (closeInternal_written _).bind fun _ _ h => h.trans (written_concat o.log rfl)

theorem updateWriteEvents_written :
    After (updateWriteEvents w) o fun _ o' => written o'.log = written o.log := by
  refine updateWriteEvents_adjusts.mono fun updated o' hadjusts => ?_
  cases hadjusts with
  | kept => rfl
  | changed | failed => exact written_concat o.log rfl

theorem flush_written : After (flush w) o fun _ o' => written o'.log = written o.log := by
  simp only [flush, after_bind, after_get, after_ite, after_modify, after_pure]
  refine ⟨fun _ => trivial, fun _ => ?_⟩
  refine (safeSend_written o.outBuf).mono fun sent o₁ h₁ => ⟨fun _ => h₁, fun _ => ?_⟩
  refine updateWriteEvents_written.mono fun updated o₂ h₂ => ?_
  refine ⟨fun _ => ⟨fun _ => ?_, fun _ => h₂.trans h₁⟩, fun _ => h₂.trans h₁⟩
  exact (closeInternal_written o₂).mono fun _ o₃ h₃ => h₃.trans (h₂.trans h₁)

theorem bufferAndFlush_written (data : Bytes) (flushIt : Bool) :
    After (bufferAndFlush w data flushIt) o fun _ o' => written o'.log = written o.log := by
  simp only [bufferAndFlush, record, after_bind, after_get, after_ite, after_modify, after_pure]
  refine ⟨fun _ => ?_, fun _ => ⟨fun _ => flush_written, fun _ => trivial⟩⟩
  exact (closeInternal_written _).mono fun _ o' h => h.trans (written_concat o.log rfl)

theorem write_written (data : Bytes) (flushIt : Bool) :
    After (write w data flushIt) o fun _ o' => written o'.log = written o.log ++ takenUp data o := by
  have htaken : written (o.log ++ [.write data]) = written o.log ++ data := by
    rw [written_append, written, written, List.flatMap_singleton, writtenBy]
  simp only [write, record, after_bind, after_get, after_ite, after_modify, after_pure]
  refine ⟨fun hclosing => ?_, fun hopen => ?_⟩
  · have hnothing : takenUp data o = [] := if_pos hclosing
    rw [hnothing, List.append_nil]
  · have hall : takenUp data o = data := if_neg hopen
    rw [hall, ← htaken]
    refine ⟨fun _ => ⟨fun _ => flush_written, fun _ => rfl⟩, fun _ => ⟨fun _ => ?_, fun _ => ?_⟩⟩
    · refine (safeSend_written data).mono fun sent o₁ h₁ => ⟨fun _ => h₁, fun _ => ⟨fun _ => h₁, fun _ => ?_⟩⟩
      exact (bufferAndFlush_written _ _).mono fun _ o₂ h₂ => h₂.trans h₁
    · exact bufferAndFlush_written _ _

/-- Only a write adds to what has been written. -/
theorem run_written (op : Op) (o : Output) :
    written (op.run w o).log = written o.log ++ op.takenUp o := by
  cases op with
  | write data flushIt => exact (write_written data flushIt).run
  | flush =>
      rw [Op.takenUp, List.append_nil]
      exact flush_written.run
  | handleDataReadyForWrite =>
      rw [Op.takenUp, List.append_nil]
      have hready : After (Output.handleDataReadyForWrite w) o fun _ o' => written o'.log = written o.log := by
        simp only [handleDataReadyForWrite, after_bind, after_get, after_ite, after_pure]
        exact ⟨fun _ => trivial, fun _ => flush_written⟩
      exact hready.run
  | closeInternal =>
      rw [Op.takenUp, List.append_nil]
      exact (closeInternal_written o).run
  | close =>
      rw [Op.takenUp, List.append_nil]
      exact (closeInternal_written { o with shutdownByUser := true }).run
  | closeWhenEmpty =>
      rw [Op.takenUp, List.append_nil]
      have hempty : After Output.closeWhenEmpty o fun _ o' => written o'.log = written o.log := by
        simp only [closeWhenEmpty, after_bind, after_get, after_ite, after_modify]
        exact ⟨fun _ => closeInternal_written o, fun _ => trivial⟩
      exact hempty.run

/-- A marked connection takes up no more writes. -/
theorem OpStep.written_eq {o' : Output} (hstep : OpStep w o o') (hclosing : o.closing = true) :
    written o'.log = written o.log := by
  obtain ⟨op, rfl⟩ := hstep
  have hnothing : op.takenUp o = [] := by
    cases op with
    | write data flushIt => exact if_pos hclosing
    | _ => rfl
  rw [run_written, hnothing, List.append_nil]

/-- Neither the socket nor the buffer has failed, and no write was too long for its size to be told from
what a send reports. -/
def Intact (o : Output) : Prop :=
  (∀ event ∈ o.log, isFailure event = false) ∧ ∀ data, .write data ∈ o.log → data.length < 2 ^ 32

/-- What has been written has been accepted or waits in the buffer. -/
def Balanced (o : Output) : Prop :=
  o.hadSendError = false ∧ (Intact o → emitted o = written o.log)

theorem OpStep.balanced {o' : Output} (hstep : OpStep w o o') (h : Balanced o) : Balanced o' := by
  refine ⟨hstep.noError h.1, fun hintact => ?_⟩
  obtain ⟨events, hlog⟩ := hstep.log_grows
  have hbefore : Intact o := by
    refine ⟨fun event hevent => hintact.1 event ?_, fun data hdata => hintact.2 data ?_⟩
    · rw [← hlog]
      exact List.mem_append_left _ hevent
    · rw [← hlog]
      exact List.mem_append_left _ hdata
  obtain ⟨op, rfl⟩ := hstep
  rw [run_written, ← h.2 hbefore]
  have same : ∀ {α : Type} {m : OutM α}, After m o (fun _ o' => emitted o' = emitted o) →
      emitted (m.run o).2 = emitted o ++ [] := by
    intro α m hm
    rw [List.append_nil]
    exact hm.run
  cases op with
  | write data flushIt =>
      rw [Op.takenUp, takenUp]
      split_ifs with hclosing
      · have hrefused : (o.closed || o.closeOnEmpty) = true := hclosing
        have hwrite : After (write w data flushIt) o fun _ o' => emitted o' = emitted o := by
          rw [write, after_bind, after_get, if_pos hrefused]
          exact after_pure.mpr rfl
        exact same hwrite
      · have hopen : o.closing = false := Bool.eq_false_iff.mpr hclosing
        obtain ⟨rest, hrest⟩ := (write_logged (w := w) data flushIt hopen).run
        have hshort : data.length < 2 ^ 32 := by
          apply hintact.2
          rw [Op.run, ← hrest]
          simp
        have hwrites := (write_emits (w := w) (o := o) data flushIt fun _ => not_truncates_of_lt hshort).run
        obtain ⟨⟨events', hlog', hemits⟩, -⟩ := hwrites
        refine (hemits hopen h.1 fun event hevent => hintact.1 event ?_).2.2
        rw [Op.run, hlog']
        exact List.mem_append_right _ hevent
  | flush => exact same flush_emitted
  | handleDataReadyForWrite => exact same handleDataReadyForWrite_emitted
  | closeInternal => exact same (closeInternal_emitted o)
  | close =>
      exact same (m := close) (closeInternal_emitted { o with shutdownByUser := true })
  | closeWhenEmpty => exact same (closeWhenEmpty_emitted o)

/-! ### What closes a connection -/

/-- A hard error, an overflow or the application has closed the connection. -/
def Interrupted (o : Output) : Prop :=
  o.shutdownByUser = true ∨ ∃ event ∈ o.log, isFailure event = true

/-- Only an interruption closes the connection before the buffer is empty. -/
def Drained (o : Output) : Prop := o.closed = true → o.outBuf = [] ∨ Interrupted o

theorem drained_of_open (h : o.closed = false) : Drained o := by
  intro hclosed
  rw [h] at hclosed
  cases hclosed

theorem drained_of_empty (h : o.outBuf = []) : Drained o := fun _ => Or.inl h

theorem Interrupted.log (h : Interrupted o) (events : List OutEvent) :
    Interrupted { o with log := o.log ++ events } := by
  refine h.imp_right ?_
  rintro ⟨event, hevent, hfailure⟩
  exact ⟨event, List.mem_append_left _ hevent, hfailure⟩

theorem Drained.log (h : Drained o) (events : List OutEvent) : Drained { o with log := o.log ++ events } :=
  fun hclosed => (h hclosed).imp_right fun hinterrupted => hinterrupted.log events

theorem closeInternal_failed {event : OutEvent} (hfailure : isFailure event = true) :
    After closeInternal { o with log := o.log ++ [event] } fun _ o' => Drained o' := by
  simp only [closeInternal, record, after_bind, after_get, after_ite, after_modify]
  have hfailed : ∀ events, ∃ event' ∈ o.log ++ [event] ++ events, isFailure event' = true :=
    fun events => ⟨event, by simp, hfailure⟩
  refine ⟨fun _ _ => Or.inr (Or.inr (hfailed _)), fun _ _ => Or.inr (Or.inr ?_)⟩
  obtain ⟨event', hevent', hfailure'⟩ := hfailed []
  rw [List.append_nil] at hevent'
  exact ⟨event', hevent', hfailure'⟩

/-- What is known after a send: it has failed, or the connection is still open. -/
theorem safeSend_drained (data : Bytes) (h : Drained o) :
    After (safeSend w data) o fun sent o' => Drained o' ∧ (sent ≠ -1 → o'.closed = false) := by
  simp only [safeSend, record, after_bind, after_get, after_ite, after_modify, after_pure]
  refine ⟨fun _ => ⟨h, fun hne => absurd rfl hne⟩, fun hopen => ?_⟩
  have hopen : o.closed = false := by
    simp only [Bool.or_eq_true, not_or] at hopen
    rw [closed, Bool.or_eq_false_iff]
    exact ⟨Bool.eq_false_iff.mpr hopen.1.1, Bool.eq_false_iff.mpr hopen.2⟩
  cases w.send o.log data with
  | sent count => exact ⟨drained_of_open hopen, fun _ => hopen⟩
  | wouldBlock => exact ⟨drained_of_open hopen, fun _ => hopen⟩
  | failed => exact (closeInternal_failed rfl).bind fun _ _ h => ⟨h, fun hne => absurd rfl hne⟩

theorem updateWriteEvents_closed :
    After (updateWriteEvents w) o fun _ o' => o'.closed = o.closed :=
  updateWriteEvents_adjusts.mono fun _ _ hadjusts => by cases hadjusts <;> rfl

theorem flush_drained (h : Drained o) : After (flush w) o fun _ o' => Drained o' := by
  simp only [flush, after_bind, after_get, after_ite, after_modify, after_pure]
  refine ⟨fun _ => h, fun _ => ?_⟩
  refine (safeSend_drained o.outBuf h).mono fun sent o₁ h₁ => ⟨fun _ => h₁.1, fun hsent => ?_⟩
  refine updateWriteEvents_closed.mono fun updated o₂ h₂ => ?_
  have hopen : o₂.closed = false := h₂.trans (h₁.2 hsent)
  refine ⟨fun _ => ⟨fun hdone => ?_, fun _ => drained_of_open hopen⟩, fun _ => drained_of_open hopen⟩
  have hempty : o₂.outBuf = [] := by
    simp only [Bool.and_eq_true, decide_eq_true_eq] at hdone
    exact hdone.1.1
  exact (closeInternal_sameFlags o₂).mono fun _ o₃ h₃ => drained_of_empty (h₃.2.trans hempty)

theorem bufferAndFlush_drained (data : Bytes) (flushIt : Bool) (hopen : o.closed = false) :
    After (bufferAndFlush w data flushIt) o fun _ o' => Drained o' := by
  simp only [bufferAndFlush, record, after_bind, after_get, after_ite, after_modify, after_pure]
  refine ⟨fun _ => closeInternal_failed rfl, fun _ => ⟨fun _ => ?_, fun _ => drained_of_open hopen⟩⟩
  exact flush_drained (drained_of_open hopen)

theorem write_drained (data : Bytes) (flushIt : Bool) (h : Drained o) :
    After (write w data flushIt) o fun _ o' => Drained o' := by
  simp only [write, record, after_bind, after_get, after_ite, after_modify, after_pure]
  refine ⟨fun _ => h, fun hopen => ?_⟩
  have hopen : o.closed = false := by
    simp only [Bool.or_eq_true, not_or] at hopen
    exact Bool.eq_false_iff.mpr hopen.1
  have htaken := h.log [.write data]
  refine ⟨fun _ => ⟨fun _ => flush_drained htaken, fun _ => htaken⟩, fun _ => ⟨fun _ => ?_, fun _ => ?_⟩⟩
  · refine (safeSend_drained data htaken).mono fun sent o₁ h₁ => ?_
    refine ⟨fun _ => h₁.1, fun _ => ⟨fun _ => h₁.1, fun hsent => ?_⟩⟩
    exact bufferAndFlush_drained _ _ (h₁.2 hsent)
  · exact bufferAndFlush_drained _ _ hopen

/-! ### Operations by what they do not do -/

/-- Any operation but one. -/
def StepBut (w : World) (excluded : Op) (o o' : Output) : Prop :=
  ∃ op : Op, op ≠ excluded ∧ o' = op.run w o

theorem StepBut.op {excluded : Op} {o' : Output} (h : StepBut w excluded o o') : OpStep w o o' := by
  obtain ⟨op, -, hop⟩ := h
  exact ⟨op, hop⟩

theorem StepBut.drained {o' : Output} (hstep : StepBut w .closeInternal o o') (h : Drained o) :
    Drained o' := by
  obtain ⟨op, hop, rfl⟩ := hstep
  cases op with
  | write data flushIt => exact (write_drained data flushIt h).run
  | flush => exact (flush_drained h).run
  | handleDataReadyForWrite =>
      have hready : After (handleDataReadyForWrite w) o fun _ o' => Drained o' := by
        simp only [handleDataReadyForWrite, after_bind, after_get, after_ite, after_pure]
        exact ⟨fun _ => h, fun _ => flush_drained h⟩
      exact hready.run
  | closeInternal => exact absurd rfl hop
  | close =>
      have hclose : After close o fun _ o' => Drained o' := by
        simp only [close, closeInternal, record, after_bind, after_get, after_ite, after_modify]
        exact ⟨fun _ _ => Or.inr (Or.inl rfl), fun _ _ => Or.inr (Or.inl rfl)⟩
      exact hclose.run
  | closeWhenEmpty =>
      have hwhenEmpty : After closeWhenEmpty o fun _ o' => Drained o' := by
        simp only [closeWhenEmpty, after_bind, after_get, after_ite, after_modify]
        refine ⟨fun hempty => ?_, fun _ => h⟩
        exact (closeInternal_sameFlags o).mono fun _ o' h' => drained_of_empty (h'.2.trans hempty)
      exact hwhenEmpty.run

/-- What is closed already cannot lose anything by another close. -/
theorem OpStep.drained {o' : Output} (hstep : OpStep w o o') (h : Drained o)
    (hclosed : o.closed = true) : Drained o' := by
  obtain ⟨op, hop⟩ := hstep
  by_cases hclose : op = .closeInternal
  · subst hclose
    have hsame : After closeInternal o fun _ o' => Drained o' := by
      simp only [closeInternal, record, after_bind, after_get, after_ite, after_modify]
      exact ⟨fun _ _ => (h hclosed).imp_right fun hinterrupted => hinterrupted.log _, fun _ _ => h hclosed⟩
    rw [hop]
    exact hsame.run
  · exact StepBut.drained ⟨op, hclose, hop⟩ h

/-- Only `closeWhenEmpty` marks a connection. -/
theorem StepBut.unmarked {o' : Output} (hstep : StepBut w .closeWhenEmpty o o') :
    o'.closeOnEmpty = o.closeOnEmpty := by
  obtain ⟨op, hop, rfl⟩ := hstep
  cases op with
  | write data flushIt => exact (write_sameFlags (w := w) (o := o) data flushIt).run.2
  | flush => exact (flush_sameFlags (w := w) (o := o)).run.2
  | handleDataReadyForWrite =>
      have hready : After (handleDataReadyForWrite w) o fun _ o' => o'.closeOnEmpty = o.closeOnEmpty := by
        simp only [handleDataReadyForWrite, after_bind, after_get, after_ite, after_pure]
        exact ⟨fun _ => trivial, fun _ => flush_sameFlags.mono fun _ _ h => h.2⟩
      exact hready.run
  | closeInternal => exact (closeInternal_sameFlags o).run.1.2
  | close => exact (closeInternal_sameFlags { o with shutdownByUser := true }).run.1.2
  | closeWhenEmpty => exact absurd rfl hop

/-- What the routines that only buffer and flush do is neither of the closes. -/
theorem BufferStep.but {excluded : Op} {o' : Output} (h : BufferStep w o o')
    (hexcluded : excluded = .closeInternal ∨ excluded = .closeWhenEmpty) : StepBut w excluded o o' := by
  cases h with
  | write data flushIt => exact ⟨.write data flushIt, by rintro rfl; simp at hexcluded, rfl⟩
  | flush => exact ⟨.flush, by rintro rfl; simp at hexcluded, rfl⟩

end Seasocks.Output
