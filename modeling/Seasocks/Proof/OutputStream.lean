import Seasocks.Library.Program
import Seasocks.Output
import Mathlib.Data.List.Infix

/-!
# The output stream

The bytes `::send` accepts are those written, in order: direct sends, buffering, partial sends and
deferred flushes lose, duplicate and reorder nothing.
-/

namespace Seasocks.Output

open Program

/-! ### What `::send` has accepted -/

def acceptedBy : OutEvent → Bytes
  | .send data (.sent count) => data.take count
  | _ => []

def accepted (log : List OutEvent) : Bytes := log.flatMap acceptedBy

@[simp]
theorem accepted_append (log log' : List OutEvent) :
    accepted (log ++ log') = accepted log ++ accepted log' := List.flatMap_append

@[simp]
theorem accepted_singleton (event : OutEvent) : accepted [event] = acceptedBy event :=
  List.flatMap_singleton _ _

theorem accepted_isPrefix {before log : List OutEvent} (h : before <+: log) :
    accepted before <+: accepted log := by
  obtain ⟨after, rfl⟩ := h
  rw [accepted_append]
  exact List.prefix_append _ _

/-! ### The invariant -/

variable {w : World} {o : Output} {total pending : Bytes}

/-- What has been accepted is the beginning of `total`, and while the connection is open the rest of
`total` is in the buffer, but for `pending`. -/
structure Streams (w : World) (total pending : Bytes) (o : Output) : Prop where
  ordered : accepted o.log <+: total
  complete : o.closed = false → accepted o.log ++ o.outBuf ++ pending = total
  bytesSent : o.bytesSent = (accepted o.log).length
  bounded : o.outBuf = [] ∨ o.outBuf.length < w.clientBufferSize
  noError : o.hadSendError = false

theorem streams_fresh (w : World) : Streams w [] [] fresh where
  ordered := List.prefix_refl _
  complete := fun _ => rfl
  bytesSent := rfl
  bounded := Or.inl rfl
  noError := rfl

theorem Streams.event {event : OutEvent} (h : Streams w total pending o)
    (haccepted : acceptedBy event = []) :
    Streams w total pending { o with log := o.log ++ [event] } where
  ordered := by simpa [haccepted] using h.ordered
  complete := fun hopen => by simpa [haccepted] using h.complete hopen
  bytesSent := by simpa [haccepted] using h.bytesSent
  bounded := h.bounded
  noError := h.noError

theorem Streams.write (h : Streams w total [] o) (data : Bytes) :
    Streams w (total ++ data) data { o with log := o.log ++ [.write data] } where
  ordered := by
    simpa [acceptedBy] using h.ordered.trans (List.prefix_append _ _)
  complete := fun hopen => by
    have hcomplete := h.complete hopen
    rw [List.append_nil] at hcomplete
    simp [acceptedBy, ← hcomplete]
  bytesSent := by simpa [acceptedBy] using h.bytesSent
  bounded := h.bounded
  noError := h.noError

/-- What a send of the first `count` bytes of `data` does to the invariant, when `data` was next. -/
theorem Streams.sent {data : Bytes} {count : Nat} {result : SendResult}
    (h : Streams w total pending o) (outBuf pending' : Bytes) (hopen : o.closed = false)
    (haccepted : acceptedBy (.send data result) = data.take count) (hcount : count ≤ data.length)
    (hnext : o.outBuf ++ pending = data.take count ++ (outBuf ++ pending'))
    (hbounded : outBuf.length ≤ o.outBuf.length) :
    Streams w total pending'
      { o with
        bytesSent := o.bytesSent + count
        outBuf := outBuf
        log := o.log ++ [.send data result] } := by
  have htotal : accepted o.log ++ data.take count ++ (outBuf ++ pending') = total := by
    rw [← h.complete hopen, List.append_assoc, List.append_assoc, hnext]
  constructor
  · simp only [accepted_append, accepted_singleton, haccepted]
    exact ⟨_, htotal⟩
  · intro _
    simpa [haccepted] using htotal
  · simp [haccepted, h.bytesSent, List.length_take, hcount]
  · rcases h.bounded with hnil | hlt
    · left
      rw [hnil] at hbounded
      exact List.length_eq_zero_iff.mp (Nat.le_zero.mp hbounded)
    · exact Or.inr (Nat.lt_of_le_of_lt hbounded hlt)
  · exact h.noError

/-! ### Closing and sending -/

/-- Once the connection is closed, what is pending no longer matters. -/
theorem closeInternal_streams (o : Output) :
    After closeInternal o fun _ o' =>
      o'.closed = true ∧
        ∀ total pending pending', Streams w total pending o → Streams w total pending' o' := by
  have hclosed : ∀ {o : Output} {total pending pending'}, Streams w total pending o →
      Streams w total pending' { o with shutdown := true } := fun h =>
    { h with complete := by simp [closed] }
  simp only [closeInternal, after_bind, after_get, after_ite, after_modify, record]
  constructor
  · intro _
    exact ⟨by simp [closed], fun _ _ _ h => hclosed (h.event rfl)⟩
  · intro _
    exact ⟨by simp [closed], fun _ _ _ h => hclosed h⟩

/-- A send fails and leaves the connection closed, or adds the sent bytes to the stream. -/
theorem safeSend_cases {data : Bytes} (hnoError : o.hadSendError = false) :
    After (safeSend w data) o fun sent o' =>
      (sent = -1 ∧ o'.closed = true ∧
        ∀ total pending pending', Streams w total pending o → Streams w total pending' o') ∨
      ∃ count result, count ≤ data.length ∧ sent = (count : Nat) ∧ o.closed = false ∧
        acceptedBy (.send data result) = data.take count ∧
        o' = { o with
          bytesSent := o.bytesSent + count
          log := o.log ++ [.send data result] } := by
  have hopen : (!o.fd || o.hadSendError || o.shutdown) = o.closed := by simp [closed, hnoError]
  simp only [safeSend, after_bind, after_get, after_ite, after_pure, hopen]
  constructor
  · intro hclosed
    exact Or.inl ⟨trivial, hclosed, fun _ _ _ h => { h with complete := by simp [hclosed] }⟩
  · intro hclosed
    have hclosed : o.closed = false := by simpa using hclosed
    simp only [record, after_modify]
    cases hresult : w.send o.log data with
    | sent count =>
        refine Or.inr ⟨min count data.length, .sent count, Nat.min_le_right _ _, rfl, hclosed, ?_, rfl⟩
        simp [acceptedBy, ← List.take_eq_take_min]
    | wouldBlock =>
        exact Or.inr ⟨0, .wouldBlock, Nat.zero_le _, rfl, hclosed, by simp [acceptedBy], rfl⟩
    | failed =>
        simp only [after_bind, after_pure]
        apply (closeInternal_streams (w := w) _).mono
        rintro - o' ⟨hclosed', hstreams⟩
        refine Or.inl ⟨by simp, hclosed', fun total pending pending' h => ?_⟩
        exact hstreams total pending pending' (h.event rfl)

/-! ### Flushing -/

/-- What adjusting the epoll interest to the buffer comes to: nothing, if the interest is right, and one
call otherwise, with the flag set if it succeeds. -/
inductive Adjusts (w : World) (o : Output) : Bool → Output → Prop where
  | kept (hright : o.registeredForWriteEvents = decide (o.outBuf ≠ [])) : Adjusts w o true o
  | changed (hwrong : o.registeredForWriteEvents ≠ decide (o.outBuf ≠ []))
      (hepoll : w.epollMod o.log (decide (o.outBuf ≠ [])) = true) :
      Adjusts w o true
        { o with
          log := o.log ++ [.epollMod (decide (o.outBuf ≠ [])) true]
          registeredForWriteEvents := decide (o.outBuf ≠ []) }
  | failed (hwrong : o.registeredForWriteEvents ≠ decide (o.outBuf ≠ []))
      (hepoll : w.epollMod o.log (decide (o.outBuf ≠ [])) = false) :
      Adjusts w o false { o with log := o.log ++ [.epollMod (decide (o.outBuf ≠ [])) false] }

theorem setWriteEvents_adjusts {wantWrite : Bool} (hwant : wantWrite = decide (o.outBuf ≠ []))
    (hwrong : o.registeredForWriteEvents ≠ wantWrite) :
    After (setWriteEvents w wantWrite) o (Adjusts w o) := by
  subst hwant
  simp only [setWriteEvents, record, after_bind, after_get, after_modify, after_ite, after_pure]
  refine ⟨fun hepoll => ?_, fun hepoll => ?_⟩
  · rw [hepoll]
    exact Adjusts.changed hwrong hepoll
  · rw [Bool.eq_false_iff.mpr hepoll]
    exact Adjusts.failed hwrong (Bool.eq_false_iff.mpr hepoll)

theorem updateWriteEvents_adjusts : After (updateWriteEvents w) o (Adjusts w o) := by
  simp only [updateWriteEvents, after_bind, after_get, after_ite, after_pure]
  refine ⟨fun hfull => ?_, fun hneither => ⟨fun hempty => ?_, fun hnor => ?_⟩⟩
  · exact setWriteEvents_adjusts (by simp [hfull.1]) (by simp [hfull.2])
  · exact setWriteEvents_adjusts (by simp [hempty.1]) (by simp [hempty.2])
  · refine Adjusts.kept ?_
    cases hregistered : o.registeredForWriteEvents with
    | false => simpa [hregistered] using hneither
    | true => simpa [hregistered] using hnor

/-- A change of the epoll interest does not touch the stream. -/
theorem updateWriteEvents_streams (h : Streams w total pending o) :
    After (updateWriteEvents w) o fun _ o' => Streams w total pending o' := by
  refine updateWriteEvents_adjusts.mono fun updated o' hadjusts => ?_
  cases hadjusts with
  | kept => exact h
  | changed => exact { h.event rfl with }
  | failed => exact h.event rfl

theorem flush_streams (h : Streams w total [] o) :
    After (flush w) o fun _ o' => Streams w total [] o' := by
  simp only [flush, after_bind, after_get, after_modify, after_ite, after_pure]
  refine ⟨fun _ => h, fun hfull => ?_⟩
  refine (safeSend_cases (w := w) h.noError).mono fun sent o' hsent => ?_
  rcases hsent with ⟨rfl, -, hstreams⟩ | ⟨count, result, hcount, rfl, hopen, haccepted, rfl⟩
  · exact ⟨fun _ => hstreams total [] [] h, fun hne => absurd rfl hne⟩
  · refine ⟨fun hfailed => absurd hfailed (by omega), fun _ => ?_⟩
    have hsent := h.sent (o.outBuf.drop count) [] hopen haccepted hcount (by simp) (by simp)
    refine (updateWriteEvents_streams hsent).mono fun updated o' ho' => ⟨fun _ => ⟨fun _ => ?_, ?_⟩, ?_⟩
    · exact (closeInternal_streams (w := w) o').mono fun _ o'' ho'' => ho''.2 total [] [] ho'
    · exact fun _ => ho'
    · exact fun _ => ho'

theorem handleDataReadyForWrite_streams (h : Streams w total [] o) :
    After (handleDataReadyForWrite w) o fun _ o' => Streams w total [] o' := by
  simp only [handleDataReadyForWrite, after_bind, after_get, after_ite, after_pure]
  exact ⟨fun _ => h, fun _ => flush_streams h⟩

theorem closeWhenEmpty_streams (h : Streams w total [] o) :
    After closeWhenEmpty o fun _ o' => Streams w total [] o' := by
  simp only [closeWhenEmpty, after_bind, after_get, after_modify, after_ite]
  refine ⟨fun _ => ?_, fun _ => { h with }⟩
  exact (closeInternal_streams (w := w) o).mono fun _ o' ho' => ho'.2 total [] [] h

theorem close_streams (h : Streams w total [] o) :
    After close o fun _ o' => Streams w total [] o' := by
  simp only [close, after_bind, after_modify]
  exact (closeInternal_streams (w := w) _).mono fun _ o' ho' => ho'.2 total [] [] { h with }

/-! ### Writing -/

theorem bufferAndFlush_streams {data : Bytes} {flushIt : Bool} (h : Streams w total data o) :
    After (bufferAndFlush w data flushIt) o fun _ o' => Streams w total [] o' := by
  simp only [bufferAndFlush, record, after_bind, after_get, after_modify, after_ite, after_pure]
  refine ⟨fun _ => ?_, fun hfits => ?_⟩
  · exact (closeInternal_streams (w := w) _).mono fun _ o' ho' =>
      ho'.2 total data [] (h.event rfl)
  · have hbuffered : Streams w total [] { o with outBuf := o.outBuf ++ data } :=
      { h with
        complete := fun hopen => by simpa using h.complete hopen
        bounded := Or.inr (by simpa using hfits) }
    exact ⟨fun _ => flush_streams hbuffered, fun _ => hbuffered⟩

/-- What a write adds to the stream: nothing once the connection is closed or closing. -/
def takenUp (data : Bytes) (o : Output) : Bytes := if o.closing then [] else data

theorem write_streams {data : Bytes} (flushIt : Bool) (hsize : data.length < 2 ^ 31)
    (h : Streams w total [] o) :
    After (write w data flushIt) o fun _ o' => Streams w (total ++ takenUp data o) [] o' := by
  simp only [Output.write, record, after_bind, after_get, after_modify, after_ite, after_pure]
  refine ⟨fun hclosing => ?_, fun hopen => ?_⟩
  · have htaken : takenUp data o = [] := if_pos hclosing
    rwa [htaken, List.append_nil]
  · have htaken : takenUp data o = data := if_neg hopen
    rw [htaken]
    have hwrite := h.write data
    refine ⟨fun hempty => ?_, fun _ => ⟨fun hdirect => ?_, fun _ => ?_⟩⟩
    · subst hempty
      exact ⟨fun _ => flush_streams hwrite, fun _ => hwrite⟩
    · refine (safeSend_cases (w := w) hwrite.noError).mono fun sent o' hsent => ?_
      rcases hsent with ⟨rfl, -, hstreams⟩ | ⟨count, result, hcount, rfl, hopen, haccepted, rfl⟩
      · have hfailed := hstreams _ data [] hwrite
        exact ⟨fun _ => hfailed, fun _ => ⟨fun _ => hfailed, fun hne => absurd rfl hne⟩⟩
      · have hsent := hwrite.sent [] (data.drop count) hopen haccepted hcount
          (by simp [hdirect.1]) (by simp)
        rw [← hdirect.1] at hsent
        rw [staticCastInt_of_lt hsize]
        refine ⟨fun hall => ?_, fun _ => ⟨fun hfailed => absurd hfailed (by omega), fun _ => ?_⟩⟩
        · obtain rfl : count = data.length := by exact_mod_cast hall
          rwa [List.drop_length] at hsent
        · exact bufferAndFlush_streams hsent
    · exact bufferAndFlush_streams hwrite

/-! ### Any sequence of operations -/

inductive Op where
  | write (data : Bytes) (flushIt : Bool)
  | flush
  | handleDataReadyForWrite
  | closeWhenEmpty
  | closeInternal
  | close
deriving DecidableEq, Repr

/-- The output side after an operation. -/
def Op.run (w : World) (o : Output) : Op → Output
  | .write data flushIt => ((Output.write w data flushIt).run o).2
  | .flush => ((Output.flush w).run o).2
  | .handleDataReadyForWrite => ((Output.handleDataReadyForWrite w).run o).2
  | .closeWhenEmpty => (Output.closeWhenEmpty.run o).2
  | .closeInternal => (Output.closeInternal.run o).2
  | .close => (Output.close.run o).2

def Op.takenUp (o : Output) : Op → Bytes
  | .write data _ => Output.takenUp data o
  | .flush | .handleDataReadyForWrite | .closeWhenEmpty | .closeInternal | .close => []

theorem Op.run_streams {op : Op} (hsize : ∀ data flushIt, op = .write data flushIt →
      data.length < 2 ^ 31) (h : Streams w total [] o) :
    Streams w (total ++ op.takenUp o) [] (op.run w o) := by
  cases op with
  | write data flushIt => exact (write_streams flushIt (hsize data flushIt rfl) h).run
  | flush =>
      rw [Op.takenUp, List.append_nil]
      exact (flush_streams h).run
  | handleDataReadyForWrite =>
      rw [Op.takenUp, List.append_nil]
      exact (handleDataReadyForWrite_streams h).run
  | closeWhenEmpty =>
      rw [Op.takenUp, List.append_nil]
      exact (closeWhenEmpty_streams h).run
  | closeInternal =>
      rw [Op.takenUp, List.append_nil]
      exact (closeInternal_streams (w := w) o).run.2 total [] [] h
  | close =>
      rw [Op.takenUp, List.append_nil]
      exact (close_streams h).run

def runOps (w : World) : List Op → Output → Output
  | [], o => o
  | op :: ops, o => runOps w ops (op.run w o)

/-- The data of all writes made while the connection was neither closed nor closing. -/
def allTakenUp (w : World) : List Op → Output → Bytes
  | [], _ => []
  | op :: ops, o => op.takenUp o ++ allTakenUp w ops (op.run w o)

theorem runOps_streams {ops : List Op} (hsize : ∀ data flushIt, .write data flushIt ∈ ops →
      data.length < 2 ^ 31) (h : Streams w total [] o) :
    Streams w (total ++ allTakenUp w ops o) [] (runOps w ops o) := by
  induction ops generalizing o total with
  | nil => simpa [allTakenUp, runOps] using h
  | cons op ops ih =>
      rw [allTakenUp, ← List.append_assoc]
      refine ih (fun data flushIt hmem => hsize data flushIt (List.mem_cons_of_mem op hmem)) ?_
      refine Op.run_streams (fun data flushIt heq => ?_) h
      exact hsize data flushIt (heq ▸ List.mem_cons_self)

/-- **Integrity of the output stream.** After any sequence of operations and at every point on the way,
the accepted bytes are a prefix of the written ones; while the connection is open, the buffer holds
exactly the rest. -/
theorem runOps_integrity (w : World) (ops : List Op)
    (hsize : ∀ data flushIt, .write data flushIt ∈ ops → data.length < 2 ^ 31) :
    (∀ before, before <+: (runOps w ops fresh).log →
      accepted before <+: allTakenUp w ops fresh) ∧
    ((runOps w ops fresh).closed = false →
      accepted (runOps w ops fresh).log ++ (runOps w ops fresh).outBuf = allTakenUp w ops fresh ∧
      (runOps w ops fresh).bytesSent = (accepted (runOps w ops fresh).log).length ∧
      ((runOps w ops fresh).outBuf = [] ∨
        (runOps w ops fresh).outBuf.length < w.clientBufferSize)) := by
  have h := runOps_streams hsize (streams_fresh w)
  rw [List.nil_append] at h
  refine ⟨fun before hbefore => (accepted_isPrefix hbefore).trans h.ordered, fun hopen => ?_⟩
  exact ⟨by simpa using h.complete hopen, h.bytesSent, h.bounded⟩

theorem runOps_integrity_buffered :
    accepted (runOps World.plain [.write [1, 2, 3] true, .write [4] false] fresh).log
        ++ (runOps World.plain [.write [1, 2, 3] true, .write [4] false] fresh).outBuf
      = allTakenUp World.plain [.write [1, 2, 3] true, .write [4] false] fresh :=
  ((runOps_integrity World.plain [.write [1, 2, 3] true, .write [4] false]
    (by
      intro data flushIt h
      simp only [List.mem_cons, Op.write.injEq, List.not_mem_nil, or_false] at h
      rcases h with ⟨rfl, -⟩ | ⟨rfl, -⟩ <;> decide)).2 (by decide)).1

end Seasocks.Output
