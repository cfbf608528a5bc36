import Seasocks.Proof.Flushing

/-!
# Failures

A `::send` that fails and a buffer that overflows close the connection, so nothing has failed on one that
is open.
-/

namespace Seasocks.Output

open Program Relation

variable {w : World} {o : Output}

/-- Nothing has failed while the connection has been open. -/
def Unfailed (o : Output) : Prop := o.closing = false → ∀ event ∈ o.log, isFailure event = false

theorem unfailed_of_closed (h : o.closed = true) : Unfailed o := fun hopen => by
  rw [closing_of_closed h] at hopen
  cases hopen

theorem closeInternal_unfailed (o : Output) : After closeInternal o fun _ o' => Unfailed o' :=
  (closeInternal_closes o).mono fun _ _ h => unfailed_of_closed h.2

/-- An event that is no failure, and changes that keep a closing connection closing. -/
theorem Unfailed.concat {o' : Output} {event : OutEvent} (h : Unfailed o) (hlog : o'.log = o.log ++ [event])
    (hevent : isFailure event = false) (hclosing : o.closing = true → o'.closing = true) : Unfailed o' := by
  intro hopen entry hentry
  have hopen' : o.closing = false := by
    by_contra hnot
    rw [Bool.not_eq_false] at hnot
    rw [hclosing hnot] at hopen
    cases hopen
  rw [hlog, List.mem_append, List.mem_singleton] at hentry
  rcases hentry with hentry | rfl
  · exact h hopen' entry hentry
  · exact hevent

theorem Unfailed.same {o' : Output} (h : Unfailed o) (hlog : o'.log = o.log) (hclosing : o'.closing = o.closing) :
    Unfailed o' := by
  rw [Unfailed, hlog, hclosing]
  exact h

theorem safeSend_unfailed (data : Bytes) (h : Unfailed o) : After (safeSend w data) o fun _ o' => Unfailed o' := by
  simp only [safeSend, record, after_bind, after_get, after_ite, after_modify, after_pure]
  refine ⟨fun _ => h, fun _ => ?_⟩
  cases w.send o.log data with
  | sent count => exact h.concat rfl rfl id
  | wouldBlock => exact h.concat rfl rfl id
  | failed => exact (closeInternal_unfailed _).mono fun _ _ h => h

theorem updateWriteEvents_unfailed (h : Unfailed o) : After (updateWriteEvents w) o fun _ o' => Unfailed o' := by
  refine updateWriteEvents_adjusts.mono fun updated o' hadjusts => ?_
  cases hadjusts with
  | kept => exact h
  | changed | failed => exact h.concat rfl rfl id

theorem flush_unfailed (h : Unfailed o) : After (flush w) o fun _ o' => Unfailed o' := by
  simp only [flush, after_bind, after_get, after_ite, after_modify, after_pure]
  refine ⟨fun _ => h, fun _ => (safeSend_unfailed _ h).mono fun sent o₁ h₁ => ⟨fun _ => h₁, fun _ => ?_⟩⟩
  have hdropped : Unfailed { o₁ with outBuf := o₁.outBuf.drop sent.toNat } := h₁.same rfl rfl
  refine (updateWriteEvents_unfailed hdropped).mono fun _ o₂ h₂ =>
    ⟨fun _ => ⟨fun _ => ?_, fun _ => h₂⟩, fun _ => h₂⟩
  exact closeInternal_unfailed o₂

theorem bufferAndFlush_unfailed (data : Bytes) (flushIt : Bool) (h : Unfailed o) :
    After (bufferAndFlush w data flushIt) o fun _ o' => Unfailed o' := by
  simp only [bufferAndFlush, record, after_bind, after_get, after_ite, after_modify, after_pure]
  have hbuffered : Unfailed { o with outBuf := o.outBuf ++ data } := h.same rfl rfl
  exact ⟨fun _ => closeInternal_unfailed _, fun _ => ⟨fun _ => flush_unfailed hbuffered, fun _ => hbuffered⟩⟩

theorem write_unfailed (data : Bytes) (flushIt : Bool) (h : Unfailed o) :
    After (write w data flushIt) o fun _ o' => Unfailed o' := by
  simp only [Output.write, record, after_bind, after_get, after_ite, after_modify, after_pure]
  have hrecorded : Unfailed { o with log := o.log ++ [.write data] } := h.concat rfl rfl id
  refine ⟨fun _ => h, fun _ => ⟨fun _ => ⟨fun _ => flush_unfailed hrecorded, fun _ => hrecorded⟩,
    fun _ => ⟨fun _ => ?_, fun _ => bufferAndFlush_unfailed _ _ hrecorded⟩⟩⟩
  refine (safeSend_unfailed _ hrecorded).mono fun sent o₁ h₁ =>
    ⟨fun _ => h₁, fun _ => ⟨fun _ => h₁, fun _ => ?_⟩⟩
  exact bufferAndFlush_unfailed _ _ h₁

/-- No operation fails without closing the connection. -/
theorem OpStep.unfailed {o' : Output} (hstep : OpStep w o o') (h : Unfailed o) : Unfailed o' := by
  obtain ⟨op, rfl⟩ := hstep
  cases op with
  | write data flushIt => exact (write_unfailed (w := w) data flushIt h).run
  | flush => exact (flush_unfailed (w := w) h).run
  | handleDataReadyForWrite =>
      have hready : After (handleDataReadyForWrite w) o fun _ o' => Unfailed o' := by
        simp only [handleDataReadyForWrite, after_bind, after_get, after_ite, after_pure]
        exact ⟨fun _ => h, fun _ => flush_unfailed h⟩
      exact hready.run
  | closeInternal => exact (closeInternal_unfailed o).run
  | close => exact (closeInternal_unfailed { o with shutdownByUser := true }).run
  | closeWhenEmpty =>
      have hwhenEmpty : After closeWhenEmpty o fun _ o' => Unfailed o' := by
        simp only [closeWhenEmpty, after_bind, after_get, after_ite, after_modify]
        refine ⟨fun _ => closeInternal_unfailed o, fun _ hopen => ?_⟩
        rw [Output.closing, Bool.or_true] at hopen
        cases hopen
      exact hwhenEmpty.run

end Seasocks.Output
