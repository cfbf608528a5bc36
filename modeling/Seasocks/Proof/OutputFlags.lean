import Seasocks.Proof.OutputRoutines

/-!
# Open and closed connections

What the output routines do to the flags that say whether a connection is closed or closing.
-/

namespace Seasocks.Output

open Program Relation

variable {w : World} {o : Output}

/-- A hard error of `::send`, or the output buffer growing past its limit. -/
def isFailure : OutEvent → Bool
  | .send _ .failed | .overflow => true
  | _ => false

/-- An open connection stays open, unless one of the events in between is a failure; a closed one
stays closed. -/
def Quiet (o o' : Output) : Prop :=
  ∃ events, o'.log = o.log ++ events ∧
    (o.closing = false → (∀ event ∈ events, isFailure event = false) → o'.closing = false) ∧
    (o.closed = true → o'.closed = true)

theorem Quiet.refl (o : Output) : Quiet o o := ⟨[], by simp, fun hopen _ => hopen, id⟩

theorem Quiet.trans {o o' o'' : Output} (h : Quiet o o') (h' : Quiet o' o'') : Quiet o o'' := by
  obtain ⟨events, hlog, hclosing, hclosed⟩ := h
  obtain ⟨events', hlog', hclosing', hclosed'⟩ := h'
  refine ⟨events ++ events', by rw [hlog', hlog, List.append_assoc], ?_, hclosed' ∘ hclosed⟩
  intro hopen hquiet
  rw [List.forall_mem_append] at hquiet
  exact hclosing' (hclosing hopen hquiet.1) hquiet.2

/-- A step that logs events and leaves the flags alone. -/
theorem Quiet.of_log {o' : Output} {events : List OutEvent} (hlog : o'.log = o.log ++ events)
    (hclosing : o'.closing = o.closing) (hclosed : o'.closed = o.closed) : Quiet o o' :=
  ⟨events, hlog, fun hopen _ => hclosing.trans hopen, fun h => hclosed.trans h⟩

theorem Quiet.of_failure {o' : Output} {event : OutEvent} {events : List OutEvent}
    (hlog : o'.log = o.log ++ event :: events) (hfailure : isFailure event = true)
    (hclosed : o'.closed = true) : Quiet o o' := by
  refine ⟨event :: events, hlog, fun _ hquiet => ?_, fun _ => hclosed⟩
  rw [hquiet event List.mem_cons_self] at hfailure
  cases hfailure

theorem closeInternal_closes (o : Output) :
    After closeInternal o fun _ o' => (∃ events, o'.log = o.log ++ events) ∧ o'.closed = true := by
  simp only [closeInternal, record, after_bind, after_get, after_ite, after_modify]
  exact ⟨fun _ => ⟨⟨_, rfl⟩, Bool.or_true _⟩, fun _ => ⟨⟨[], by simp⟩, Bool.or_true _⟩⟩

theorem closeWhenEmpty_closing (o : Output) :
    After closeWhenEmpty o fun _ o' => o'.closing = true := by
  simp only [closeWhenEmpty, after_bind, after_get, after_ite, after_modify]
  refine ⟨fun _ => ?_, fun _ => Bool.or_true _⟩
  exact (closeInternal_closes o).mono fun _ o' h => by simp [closing, h.2]

/-- A close that follows a failure. -/
theorem closeInternal_quiet {o : Output} {event : OutEvent} (hfailure : isFailure event = true) :
    After closeInternal { o with log := o.log ++ [event] } fun _ o' => Quiet o o' :=
  (closeInternal_closes _).mono fun _ o' ⟨⟨events, hlog⟩, hclosed⟩ =>
    Quiet.of_failure (by rw [hlog, List.append_assoc]; rfl) hfailure hclosed

theorem safeSend_quiet (data : Bytes) : After (safeSend w data) o fun _ o' => Quiet o o' := by
  simp only [safeSend, record, after_bind, after_get, after_ite, after_modify, after_pure]
  refine ⟨fun _ => Quiet.refl o, fun _ => ?_⟩
  cases w.send o.log data with
  | sent count => exact Quiet.of_log rfl rfl rfl
  | wouldBlock => exact Quiet.of_log rfl rfl rfl
  | failed => exact closeInternal_quiet rfl

theorem updateWriteEvents_quiet : After (updateWriteEvents w) o fun _ o' => Quiet o o' := by
  refine updateWriteEvents_adjusts.mono fun updated o' hadjusts => ?_
  cases hadjusts with
  | kept => exact Quiet.refl o
  | changed | failed => exact Quiet.of_log rfl rfl rfl

/-- The close at the end of `flush` is that of a connection which was closing already. -/
theorem flush_quiet : After (flush w) o fun _ o' => Quiet o o' := by
  simp only [flush, after_bind, after_get, after_ite, after_modify, after_pure]
  refine ⟨fun _ => Quiet.refl o, fun _ => ?_⟩
  refine (safeSend_quiet o.outBuf).mono fun sent o₁ h₁ => ⟨fun _ => h₁, fun _ => ?_⟩
  have hdrop : Quiet o { o₁ with outBuf := o₁.outBuf.drop sent.toNat } :=
    h₁.trans (Quiet.of_log (List.append_nil _).symm rfl rfl)
  refine updateWriteEvents_quiet.mono fun updated o₂ h₂ => ?_
  have hquiet := hdrop.trans h₂
  refine ⟨fun _ => ⟨fun hdone => ?_, fun _ => hquiet⟩, fun _ => hquiet⟩
  apply (closeInternal_closes o₂).mono
  rintro - o₃ ⟨⟨events, hlog⟩, hclosed⟩
  refine hquiet.trans ⟨events, hlog, fun hopen => ?_, fun _ => hclosed⟩
  simp only [Bool.and_eq_true] at hdone
  rw [closing, hdone.2, Bool.or_true] at hopen
  cases hopen

theorem handleDataReadyForWrite_quiet :
    After (handleDataReadyForWrite w) o fun _ o' => Quiet o o' := by
  simp only [handleDataReadyForWrite, after_bind, after_get, after_ite, after_pure]
  exact ⟨fun _ => Quiet.refl o, fun _ => flush_quiet⟩

theorem bufferAndFlush_quiet (data : Bytes) (flushIt : Bool) :
    After (bufferAndFlush w data flushIt) o fun _ o' => Quiet o o' := by
  simp only [bufferAndFlush, record, after_bind, after_get, after_ite, after_modify, after_pure]
  refine ⟨fun _ => closeInternal_quiet rfl, fun _ => ?_⟩
  have hbuffer : Quiet o { o with outBuf := o.outBuf ++ data } :=
    Quiet.of_log (List.append_nil _).symm rfl rfl
  exact ⟨fun _ => flush_quiet.mono fun _ _ => hbuffer.trans, fun _ => hbuffer⟩

theorem write_quiet (data : Bytes) (flushIt : Bool) :
    After (write w data flushIt) o fun _ o' => Quiet o o' := by
  simp only [Output.write, record, after_bind, after_get, after_ite, after_modify, after_pure]
  have htaken : Quiet o { o with log := o.log ++ [.write data] } := Quiet.of_log rfl rfl rfl
  refine ⟨fun _ => Quiet.refl o, fun _ => ⟨fun _ => ⟨fun _ => ?_, fun _ => htaken⟩, fun _ => ?_⟩⟩
  · exact flush_quiet.mono fun _ _ => htaken.trans
  · refine ⟨fun _ => ?_, fun _ => (bufferAndFlush_quiet _ _).mono fun _ _ => htaken.trans⟩
    refine (safeSend_quiet data).mono fun sent o₁ h₁ => ?_
    have hsent := htaken.trans h₁
    refine ⟨fun _ => hsent, fun _ => ⟨fun _ => hsent, fun _ => ?_⟩⟩
    exact (bufferAndFlush_quiet _ _).mono fun _ _ => hsent.trans

theorem quiet_of_bufferSteps {o' : Output} (h : ReflTransGen (BufferStep w) o o') : Quiet o o' := by
  induction h with
  | refl => exact Quiet.refl o
  | tail _ hstep ih =>
      refine ih.trans ?_
      cases hstep with
      | write data flushIt => exact (write_quiet data flushIt).run
      | flush => exact flush_quiet.run

/-- Nothing opens a closed connection again. -/
theorem OpStep.closed {o' : Output} (h : OpStep w o o') (hclosed : o.closed = true) :
    o'.closed = true := by
  obtain ⟨op, rfl⟩ := h
  cases op with
  | write data flushIt =>
      obtain ⟨-, -, -, hkeep⟩ := (write_quiet (w := w) (o := o) data flushIt).run
      exact hkeep hclosed
  | flush =>
      obtain ⟨-, -, -, hkeep⟩ := (flush_quiet (w := w) (o := o)).run
      exact hkeep hclosed
  | handleDataReadyForWrite =>
      have hready : After (handleDataReadyForWrite w) o fun _ o' => o'.closed = true := by
        simp only [handleDataReadyForWrite, after_bind, after_get, after_ite, after_pure]
        exact ⟨fun _ => hclosed, fun hopen => absurd hclosed hopen⟩
      exact hready.run
  | closeInternal => exact (closeInternal_closes o).run.2
  | close => exact (closeInternal_closes { o with shutdownByUser := true }).run.2
  | closeWhenEmpty =>
      have hempty : After closeWhenEmpty o fun _ o' => o'.closed = true := by
        simp only [closeWhenEmpty, after_bind, after_get, after_ite, after_modify]
        exact ⟨fun _ => (closeInternal_closes o).run.2, fun _ => hclosed⟩
      exact hempty.run

end Seasocks.Output
