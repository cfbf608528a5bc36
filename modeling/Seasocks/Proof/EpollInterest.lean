import Seasocks.Proof.OutputRoutines

/-!
# The epoll interest

What the connection believes about its registration for write events is what the system was last told.
-/

namespace Seasocks.Output

open Program Relation

variable {w : World} {o : Output}

/-- Whether `EPOLLOUT` is among the events asked for, by the calls of `epoll_ctl` that succeeded. -/
def epollOut (log : List OutEvent) : Bool :=
  log.foldl (fun interest event =>
    match event with
    | .epollMod wantWrite true => wantWrite
    | _ => interest) false

def Interested (o : Output) : Prop := o.registeredForWriteEvents = epollOut o.log

/-- One entry at a time, with whatever fields go with it. -/
inductive LogStep : Output → Output → Prop where
  | same {o o' : Output} (hlog : o'.log = o.log)
      (hregistered : o'.registeredForWriteEvents = o.registeredForWriteEvents) : LogStep o o'
  | record {o : Output} (event : OutEvent) (hevent : ∀ wantWrite, event ≠ .epollMod wantWrite true) :
      LogStep o { o with log := o.log ++ [event] }
  | register {o : Output} (wantWrite : Bool) :
      LogStep o
        { o with
          log := o.log ++ [.epollMod wantWrite true]
          registeredForWriteEvents := wantWrite }

theorem Interested.step {o' : Output} (h : Interested o) (hstep : LogStep o o') : Interested o' := by
  unfold Interested at *
  cases hstep with
  | same hlog hregistered => rw [hregistered, hlog, h]
  | record event hevent =>
      rw [h, epollOut, epollOut, List.foldl_append]
      cases event with
      | epollMod wantWrite succeeded =>
          cases succeeded with
          | true => exact absurd rfl (hevent wantWrite)
          | false => rfl
      | _ => rfl
  | register wantWrite => rw [epollOut, List.foldl_append, List.foldl_cons, List.foldl_nil]

theorem record_bind_logs {α : Type} {event : OutEvent} {m : Unit → OutM α}
    (hevent : ∀ wantWrite, event ≠ .epollMod wantWrite true) (hm : Runs LogStep (m ())) :
    Runs LogStep (record event >>= m) :=
  (Runs.single fun _ => .record event hevent).bind fun _ => hm

theorem modify_logs {f : Output → Output} (hlog : ∀ o, (f o).log = o.log)
    (hregistered : ∀ o, (f o).registeredForWriteEvents = o.registeredForWriteEvents) :
    Runs LogStep (modify f : OutM Unit) := Runs.single fun o => .same (hlog o) (hregistered o)

theorem modify_bind_logs {α : Type} {f : Output → Output} {m : Unit → OutM α}
    (hlog : ∀ o, (f o).log = o.log)
    (hregistered : ∀ o, (f o).registeredForWriteEvents = o.registeredForWriteEvents)
    (hm : Runs LogStep (m ())) : Runs LogStep (modify f >>= m) :=
  (modify_logs hlog hregistered).bind fun _ => hm

theorem closeInternal_logs : Runs LogStep closeInternal := by
  have shut : Runs LogStep (modify fun o => { o with shutdown := true } : OutM Unit) :=
    modify_logs (fun _ => rfl) fun _ => rfl
  exact Runs.get_bind fun _ => Runs.ite (record_bind_logs (by simp) shut) shut

theorem closeWhenEmpty_logs : Runs LogStep closeWhenEmpty :=
  Runs.get_bind fun _ => Runs.ite closeInternal_logs (modify_logs (fun _ => rfl) fun _ => rfl)

theorem close_logs : Runs LogStep close :=
  modify_bind_logs (fun _ => rfl) (fun _ => rfl) closeInternal_logs

theorem safeSend_logs (data : Bytes) : Runs LogStep (safeSend w data) := by
  refine Runs.get_bind fun o => Runs.ite (Runs.pure _) (record_bind_logs (by simp) ?_)
  cases w.send o.log data with
  | sent count => exact modify_bind_logs (fun _ => rfl) (fun _ => rfl) (Runs.pure _)
  | wouldBlock => exact Runs.pure _
  | failed => exact closeInternal_logs.bind fun _ => Runs.pure _

/-- The flag is set together with the call. -/
theorem updateWriteEvents_logs : Runs LogStep (updateWriteEvents w) := by
  refine fun o => updateWriteEvents_adjusts.mono fun updated o' hadjusts => ?_
  cases hadjusts with
  | kept => exact ReflTransGen.refl
  | changed => exact ReflTransGen.single (.register _)
  | failed => exact ReflTransGen.single (.record _ (by simp))

theorem flush_logs : Runs LogStep (flush w) := by
  refine Runs.get_bind fun o => Runs.ite (Runs.pure _) ?_
  refine (safeSend_logs o.outBuf).bind fun _ => Runs.ite (Runs.pure _) ?_
  refine modify_bind_logs (fun _ => rfl) (fun _ => rfl) ?_
  refine updateWriteEvents_logs.bind fun _ => Runs.ite (Runs.get_bind fun _ => ?_) (Runs.pure _)
  exact Runs.ite (closeInternal_logs.bind fun _ => Runs.pure _) (Runs.pure _)

theorem bufferAndFlush_logs (data : Bytes) (flushIt : Bool) :
    Runs LogStep (bufferAndFlush w data flushIt) := by
  refine Runs.get_bind fun _ => Runs.ite (record_bind_logs (by simp) ?_) ?_
  · exact closeInternal_logs.bind fun _ => Runs.pure _
  · exact modify_bind_logs (fun _ => rfl) (fun _ => rfl) (Runs.ite flush_logs (Runs.pure _))

theorem write_logs (data : Bytes) (flushIt : Bool) : Runs LogStep (write w data flushIt) := by
  refine Runs.get_bind fun _ => Runs.ite (Runs.pure _) (record_bind_logs (by simp) ?_)
  refine Runs.ite (Runs.ite flush_logs (Runs.pure _)) (Runs.ite ?_ (bufferAndFlush_logs _ _))
  refine (safeSend_logs data).bind fun _ => Runs.ite (Runs.pure _) (Runs.ite (Runs.pure _) ?_)
  exact bufferAndFlush_logs _ _

theorem handleDataReadyForWrite_logs : Runs LogStep (handleDataReadyForWrite w) :=
  Runs.get_bind fun _ => Runs.ite (Runs.pure _) (flush_logs.bind fun _ => Runs.pure _)

/-- Every operation goes one entry at a time. -/
theorem OpStep.logs {o' : Output} (h : OpStep w o o') : ReflTransGen LogStep o o' := by
  obtain ⟨op, rfl⟩ := h
  cases op with
  | write data flushIt => exact (write_logs data flushIt o).run
  | flush => exact (flush_logs o).run
  | handleDataReadyForWrite => exact (handleDataReadyForWrite_logs o).run
  | closeInternal => exact (closeInternal_logs o).run
  | close => exact (close_logs o).run
  | closeWhenEmpty => exact (closeWhenEmpty_logs o).run

theorem OpStep.interested {o' : Output} (h : OpStep w o o') (hinterested : Interested o) :
    Interested o' :=
  invariant_of_steps Interested (fun _ _ => Interested.step) h.logs hinterested

theorem grows_of_logs {o' : Output} (h : ReflTransGen LogStep o o') : o.log <+: o'.log := by
  refine invariant_of_steps (fun o' => o.log <+: o'.log) (fun o₁ o₂ h₁ hstep => ?_) h List.prefix_rfl
  cases hstep with
  | same hlog hregistered => rwa [hlog]
  | record event hevent => exact h₁.trans (List.prefix_append _ _)
  | register wantWrite => exact h₁.trans (List.prefix_append _ _)

theorem OpStep.log_grows {o' : Output} (h : OpStep w o o') : o.log <+: o'.log := grows_of_logs h.logs

/-- A write that is not refused is logged first. -/
theorem write_logged (data : Bytes) (flushIt : Bool) (hopen : o.closing = false) :
    After (write w data flushIt) o fun _ o' => o.log ++ [.write data] <+: o'.log := by
  have hrefused : ¬ (o.closed || o.closeOnEmpty) = true := Bool.eq_false_iff.mp hopen
  have rest : Runs LogStep (if data = [] then
      if flushIt then flush w else return true
    else if o.outBuf = [] ∧ flushIt = true then do
      let bytesSent ← safeSend w data
      if bytesSent = staticCastInt data.length then
        return true
      else if bytesSent = -1 then
        return false
      else
        bufferAndFlush w (data.drop bytesSent.toNat) flushIt
    else bufferAndFlush w data flushIt) := by
    refine Runs.ite (Runs.ite flush_logs (Runs.pure _)) (Runs.ite ?_ (bufferAndFlush_logs _ _))
    refine (safeSend_logs data).bind fun _ => Runs.ite (Runs.pure _) (Runs.ite (Runs.pure _) ?_)
    exact bufferAndFlush_logs _ _
  rw [write, after_bind, after_get, if_neg hrefused, record, after_bind, after_modify]
  exact After.mono (rest _) fun _ _ => grows_of_logs

end Seasocks.Output
