import Seasocks.Proof.Emission

/-!
# The result of a write

When `write` tells its callers the truth: `true` only if all bytes have been accepted or are held, `false`
only if the connection is closed or closing.
-/

namespace Seasocks.Output

open Program Relation

variable {w : World} {o : Output}

/-- What a caller of `write` relies on. -/
def Truthful (o : Output) (data : Bytes) (done : Bool) (o' : Output) : Prop :=
  (done = true → emitted o' = emitted o ++ data) ∧ (done = false → o'.closing = true)

theorem truthful_true {data : Bytes} {o' : Output} (h : emitted o' = emitted o ++ data) :
    Truthful o data true o' := by
  refine ⟨fun _ => h, fun hfalse => ?_⟩
  cases hfalse

theorem truthful_false {data : Bytes} {o' : Output} (h : o'.closing = true) :
    Truthful o data false o' := by
  refine ⟨fun htrue => ?_, fun _ => h⟩
  cases htrue

/-! ### Where a write goes wrong -/

/-- A direct send takes a part of the data only, or fails, and the number it returns is what
`static_cast<int>` makes of the size. -/
def CutShort (w : World) (o : Output) (data : Bytes) : Prop :=
  o.outBuf = [] ∧ data ≠ [] ∧
    match sendCount w (o.log ++ [.write data]) data with
    | some count => count < data.length ∧ staticCastInt data.length = count
    | none => staticCastInt data.length = -1

/-- The log behind a send. -/
def sentLog (w : World) (log : List OutEvent) (data : Bytes) : List OutEvent :=
  log ++ [.send data (w.send log data)]

/-- A flush sends something, but cannot adjust the interest in write events to what is left. -/
def InterestLost (w : World) (o : Output) : Prop :=
  o.outBuf ≠ [] ∧ ∃ count, sendCount w o.log o.outBuf = some count ∧
    o.registeredForWriteEvents ≠ decide (o.outBuf.drop count ≠ []) ∧
    w.epollMod (sentLog w o.log o.outBuf) (decide (o.outBuf.drop count ≠ [])) = false

/-- The data is added to the buffer, if that does not grow too large. -/
def buffered (w : World) (o : Output) (data : Bytes) : Option Output :=
  if o.outBuf.length + data.length < w.clientBufferSize then some { o with outBuf := o.outBuf ++ data }
  else none

/-- The state in which a write that flushes gets to it. -/
def atFlush (w : World) (o : Output) (data : Bytes) : Option Output :=
  let log := o.log ++ [.write data]
  if data = [] then some { o with log := log }
  else if o.outBuf = [] then
    match sendCount w log data with
    | none => none
    | some count =>
        if staticCastInt data.length = count then none
        else
          buffered w { o with bytesSent := o.bytesSent + count, log := sentLog w log data }
            (data.drop count)
  else buffered w { o with log := log } data

/-! ### Sending and flushing -/

/-- A send from an open connection. -/
theorem safeSend_result (data : Bytes) (hopen : o.closed = false) (hnoError : o.hadSendError = false) :
    After (safeSend w data) o fun sent o' =>
      (sendCount w o.log data = none ∧ sent = -1 ∧ o'.closed = true ∧ emitted o' = emitted o) ∨
      ∃ count ≤ data.length, sendCount w o.log data = some count ∧ sent = (count : Nat) ∧
        o' = { o with bytesSent := o.bytesSent + count, log := sentLog w o.log data } := by
  have hallowed : (!o.fd || o.hadSendError || o.shutdown) = false := by
    rw [hnoError, Bool.or_false]
    exact hopen
  simp only [safeSend, record, after_bind, after_get, after_ite, after_modify, after_pure]
  refine ⟨fun hrefused => absurd (hallowed.symm.trans hrefused) Bool.false_ne_true, fun _ => ?_⟩
  cases hresult : w.send o.log data with
  | sent count =>
      refine Or.inr ⟨min count data.length, Nat.min_le_right _ _, ?_, rfl, ?_⟩
      · rw [sendCount, hresult]
      · rw [sentLog, hresult]
        rfl
  | wouldBlock =>
      refine Or.inr ⟨0, Nat.zero_le _, ?_, rfl, ?_⟩
      · rw [sendCount, hresult]
      · rw [sentLog, hresult]
        rfl
  | failed =>
      simp only [after_bind, after_pure]
      refine ((closeInternal_closes _).and (closeInternal_emitted _)).mono fun _ o' h => Or.inl ⟨?_, ?_⟩
      · rw [sendCount, hresult]
      · exact ⟨trivial, h.1.2, by rw [h.2]; simp [emitted, acceptedBy]⟩

theorem accepted_sentLog (log : List OutEvent) (data : Bytes) {count : Nat}
    (h : sendCount w log data = some count) :
    accepted (sentLog w log data) = accepted log ++ data.take count := by
  rw [sentLog, accepted_append, accepted_singleton]
  rw [sendCount] at h
  cases hresult : w.send log data with
  | sent sent =>
      rw [hresult] at h
      injection h with h
      rw [acceptedBy, List.take_eq_take_min, h]
  | wouldBlock =>
      rw [hresult] at h
      injection h with h
      rw [← h, List.take_zero]
      rfl
  | failed =>
      rw [hresult] at h
      cases h

/-- Adjusting the interest in write events. -/
theorem updateWriteEvents_result (hopen : o.closing = false) :
    After (updateWriteEvents w) o fun updated o' => o'.closing = false ∧
      (updated = false ↔ o.registeredForWriteEvents ≠ decide (o.outBuf ≠ []) ∧
        w.epollMod o.log (decide (o.outBuf ≠ [])) = false) := by
  refine updateWriteEvents_adjusts.mono fun updated o' hadjusts => ?_
  cases hadjusts with
  | kept hright =>
      exact ⟨hopen, iff_of_false (by simp) fun hlost => hlost.1 hright⟩
  | changed hwrong hepoll =>
      refine ⟨hopen, iff_of_false (by simp) fun hlost => ?_⟩
      rw [hepoll] at hlost
      cases hlost.2
  | failed hwrong hepoll => exact ⟨hopen, iff_of_true rfl ⟨hwrong, hepoll⟩⟩

theorem closing_eq_false (h : o.closing = false) : o.closed = false ∧ o.closeOnEmpty = false := by
  rwa [closing, Bool.or_eq_false_iff] at h

theorem flush_result (hopen : o.closing = false) (hnoError : o.hadSendError = false) :
    After (flush w) o fun done o' => (done = false → o'.closing = true) ↔ ¬ InterestLost w o := by
  simp only [flush, after_bind, after_get, after_ite, after_modify, after_pure]
  refine ⟨fun hempty => ?_, fun hfull => ?_⟩
  · refine iff_of_true (fun hfalse => by cases hfalse) ?_
    rintro ⟨hne, -⟩
    exact hne hempty
  · refine (safeSend_result o.outBuf (closing_eq_false hopen).1 hnoError).mono fun sent o₁ h₁ => ?_
    rcases h₁ with ⟨hfailed, rfl, hclosed, -⟩ | ⟨count, -, hsent, rfl, rfl⟩
    · refine ⟨fun _ => iff_of_true (fun _ => closing_of_closed hclosed) ?_, fun hne => absurd rfl hne⟩
      rintro ⟨-, count, hsent, -⟩
      rw [hfailed] at hsent
      cases hsent
    · refine ⟨fun hfailed => absurd hfailed (by omega), fun _ => ?_⟩
      have hlost : InterestLost w o ↔ o.registeredForWriteEvents ≠ decide (o.outBuf.drop count ≠ []) ∧
          w.epollMod (sentLog w o.log o.outBuf) (decide (o.outBuf.drop count ≠ [])) = false := by
        constructor
        · rintro ⟨-, count', hsent', hlost⟩
          rw [hsent] at hsent'
          injection hsent' with hsame
          exact hsame ▸ hlost
        · intro hlost
          exact ⟨hfull, count, hsent, hlost⟩
      rw [hlost, Int.toNat_natCast]
      refine (updateWriteEvents_result (o := { o with
        bytesSent := o.bytesSent + count
        log := sentLog w o.log o.outBuf
        outBuf := o.outBuf.drop count }) hopen).mono fun updated o₂ h₂ => ?_
      obtain ⟨hopen₂, hupdated⟩ := h₂
      refine ⟨fun hdone => ⟨fun _ => ?_, fun _ => ?_⟩, fun hnot => ?_⟩
      · refine After.of_forall fun _ o₃ => iff_of_true (fun hfalse => by cases hfalse) ?_
        rw [← hupdated, hdone]
        simp
      · refine iff_of_true (fun hfalse => by cases hfalse) ?_
        rw [← hupdated, hdone]
        simp
      · refine iff_of_false (fun htruthful => ?_) ?_
        · rw [hopen₂] at htruthful
          cases htruthful trivial
        · rw [← hupdated, not_not]
          simpa using hnot

theorem bufferAndFlush_result (data : Bytes) (hopen : o.closing = false)
    (hnoError : o.hadSendError = false) :
    After (bufferAndFlush w data true) o fun done o' => Truthful o data done o' ↔
      ∀ o₁ ∈ buffered w o data, ¬ InterestLost w o₁ := by
  simp only [bufferAndFlush, record, after_bind, after_get, after_ite, after_modify, after_pure]
  refine ⟨fun hlarge => ?_, fun hfits => ⟨fun _ => ?_, fun hnot => absurd trivial hnot⟩⟩
  · refine (closeInternal_closes _).mono fun _ o' h =>
      iff_of_true (truthful_false (closing_of_closed h.2)) ?_
    rw [buffered, if_neg (by omega)]
    intro o₁ hmem
    cases hmem
  · have hbuffered : buffered w o data = some { o with outBuf := o.outBuf ++ data } := by
      rw [buffered, if_pos (by omega)]
    have hflush := flush_result (w := w) (o := { o with outBuf := o.outBuf ++ data }) hopen hnoError
    refine (hflush.and flush_emitted).mono fun done o' h => ?_
    have hemitted : emitted o' = emitted o ++ data := by
      rw [h.2, emitted, emitted, List.append_assoc]
    rw [hbuffered]
    constructor
    · rintro ⟨-, hfalse⟩ o₁ hmem
      injection hmem with hmem
      exact hmem ▸ h.1.mp hfalse
    · intro hall
      exact ⟨fun _ => hemitted, h.1.mpr (hall _ rfl)⟩

/-! ### Writing -/

/-- A direct send that is not cut short is followed by a flush of the rest. -/
theorem directWrite_result (data : Bytes) (hdata : data ≠ []) (hempty : o.outBuf = [])
    (hopen : o.closing = false) (hnoError : o.hadSendError = false) :
    After (do
      let bytesSent ← safeSend w data
      if bytesSent = staticCastInt data.length then
        return true
      else if bytesSent = -1 then
        return false
      else
        bufferAndFlush w (data.drop bytesSent.toNat) true) { o with log := o.log ++ [.write data] }
      fun done o' => Truthful o data done o' ↔
        ¬ CutShort w o data ∧ ∀ o₁ ∈ atFlush w o data, ¬ InterestLost w o₁ := by
  have hwritten : emitted { o with log := o.log ++ [.write data] } = emitted o := by
    simp [emitted, acceptedBy]
  have hlost : emitted o ≠ emitted o ++ data := fun h => hdata (List.self_eq_append_right.mp h)
  simp only [after_bind, after_ite, after_pure, CutShort, atFlush, if_neg hdata, if_pos hempty]
  refine (safeSend_result (o := { o with log := o.log ++ [.write data] }) data
    (closing_eq_false hopen).1 hnoError).mono fun sent o₁ h₁ => ?_
  rcases h₁ with ⟨hfailed, rfl, hclosed, hsame⟩ | ⟨count, hcount, hsent, rfl, rfl⟩
  · dsimp only at hfailed
    rw [hfailed]
    refine ⟨fun hcast => iff_of_false (fun htruthful => ?_) ?_, fun hcast => ⟨fun _ => ?_, fun hne => ?_⟩⟩
    · have hall := htruthful.1 rfl
      rw [hsame, hwritten] at hall
      exact hlost hall
    · rintro ⟨hnot, -⟩
      exact hnot ⟨hempty, hdata, hcast.symm⟩
    · refine iff_of_true (truthful_false (closing_of_closed hclosed)) ⟨?_, fun _ hmem => by cases hmem⟩
      rintro ⟨-, -, hcast'⟩
      exact hcast hcast'.symm
    · exact absurd rfl hne
  · dsimp only at hsent
    rw [hsent]
    have haccepted := accepted_sentLog (w := w) _ _ hsent
    have hnothing : acceptedBy (.write data) = [] := rfl
    rw [accepted_append, accepted_singleton, hnothing, List.append_nil] at haccepted
    refine ⟨fun hcast => ?_, fun hcast => ⟨fun hfailed => absurd hfailed (by omega), fun _ => ?_⟩⟩
    · have hend : emitted { o with
          bytesSent := o.bytesSent + count
          log := sentLog w (o.log ++ [.write data]) data } = emitted o ++ data.take count := by
        rw [emitted, haccepted, emitted, hempty, List.append_nil, List.append_nil]
      dsimp only
      rw [if_pos hcast.symm]
      constructor
      · rintro ⟨htrue, -⟩
        refine ⟨?_, fun _ hmem => by cases hmem⟩
        rintro ⟨-, -, hshort, -⟩
        have hall := htrue rfl
        rw [hend] at hall
        have hlength := congrArg List.length (List.append_cancel_left hall)
        rw [List.length_take] at hlength
        omega
      · rintro ⟨hnot, -⟩
        have hwhole : count = data.length := by
          by_contra hne
          exact hnot ⟨hempty, hdata, by omega, hcast.symm⟩
        apply truthful_true
        rw [hend, hwhole, List.take_length]
    · have hnot : ¬ (o.outBuf = [] ∧ data ≠ [] ∧ count < data.length ∧
          staticCastInt data.length = count) := fun h => hcast h.2.2.2.symm
      have hrest := bufferAndFlush_result (w := w) (o := { o with
        bytesSent := o.bytesSent + count
        log := sentLog w (o.log ++ [.write data]) data }) (data.drop count) hopen hnoError
      rw [Int.toNat_natCast]
      refine hrest.mono fun done o' h => ?_
      have hemitted : emitted { o with
          bytesSent := o.bytesSent + count
          log := sentLog w (o.log ++ [.write data]) data } ++ data.drop count = emitted o ++ data := by
        rw [emitted, haccepted, emitted, hempty, List.append_nil, List.append_nil, List.append_assoc,
          List.take_append_drop]
      dsimp only
      rw [if_neg fun hsame => hcast hsame.symm]
      rw [Truthful, hemitted] at h
      rw [Truthful, h]
      exact ⟨fun hall => ⟨hnot, hall⟩, fun hall => hall.2⟩

/-- **The result of a write.** It is the truth exactly if the connection is closed or closing, or nothing
is flushed, or no direct send is cut short and the interest in write events can be adjusted. -/
theorem write_truthful_iff (w : World) (o : Output) (data : Bytes) (flushIt : Bool)
    (hnoError : o.hadSendError = false) :
    After (write w data flushIt) o (fun done o' => Truthful o data done o') ↔
      o.closing = true ∨ flushIt = false ∨
        ¬ CutShort w o data ∧ ∀ o₁ ∈ atFlush w o data, ¬ InterestLost w o₁ := by
  have hwritten : emitted { o with log := o.log ++ [.write data] } = emitted o := by
    simp [emitted, acceptedBy]
  cases hopen : o.closing with
  | true =>
      refine iff_of_true ?_ (Or.inl rfl)
      simp only [Output.write, after_bind, after_get, after_ite, after_pure]
      exact ⟨fun _ => truthful_false hopen, fun hnot => absurd hopen hnot⟩
  | false =>
      have hrefused : (o.closed || o.closeOnEmpty) = false := hopen
      have accepted : ∀ {p : Prop}, (o.closed || o.closeOnEmpty) = true → p := fun hno =>
        absurd (hrefused.symm.trans hno) Bool.false_ne_true
      cases flushIt with
      | false =>
          refine iff_of_true ?_ (Or.inr (Or.inl rfl))
          simp only [Output.write, bufferAndFlush, record, after_bind, after_get, after_ite, after_modify,
            after_pure, Bool.false_eq_true, and_false, false_implies, true_and, not_false_eq_true,
            true_implies]
          refine ⟨fun hno => accepted hno, fun _ => ⟨fun hempty => ?_, fun _ => ⟨fun _ => ?_, fun _ => ?_⟩⟩⟩
          · apply truthful_true
            rw [hwritten, hempty, List.append_nil]
          · exact (closeInternal_closes _).mono fun _ o' h => truthful_false (closing_of_closed h.2)
          · apply truthful_true
            simp [emitted, acceptedBy]
      | true =>
          simp only [Output.write, record, after_bind, after_get, after_ite, after_modify, after_pure,
            hrefused, Bool.false_eq_true, Bool.true_eq_false, false_implies, true_and, and_true,
            false_or, not_false_eq_true, true_implies, not_true_eq_false]
          by_cases hdata : data = []
          · have hnot : ¬ CutShort w o data := fun hcut => hcut.2.1 hdata
            have hflush := flush_result (w := w) (o := { o with log := o.log ++ [.write data] }) hopen hnoError
            rw [atFlush, if_pos hdata]
            refine ⟨fun h => ⟨hnot, ?_⟩, fun h => ⟨fun _ => ?_, fun hne => absurd hdata hne⟩⟩
            · rintro o₁ hmem
              injection hmem with hmem
              rw [← hmem]
              exact (hflush.and (h.1 hdata)).run.1.mp (hflush.and (h.1 hdata)).run.2.2
            · refine (hflush.and flush_emitted).mono fun done o' h' => ⟨fun _ => ?_, h'.1.mpr (h.2 _ rfl)⟩
              rw [h'.2, hwritten, hdata, List.append_nil]
          · by_cases hempty : o.outBuf = []
            · simp only [hdata, hempty, false_implies, true_implies, true_and, and_true,
                not_false_eq_true, not_true_eq_false]
              rw [← hempty]
              have hdirect := (after_iff _).mp (directWrite_result (w := w) data hdata hempty hopen hnoError)
              simpa only [after_bind, after_ite, after_pure] using hdirect
            · have hnot : ¬ CutShort w o data := fun hcut => hempty hcut.1
              have hbuffer := bufferAndFlush_result (w := w) (o := { o with log := o.log ++ [.write data] })
                data hopen hnoError
              have hsame : ∀ done o', Truthful { o with log := o.log ++ [.write data] } data done o' ↔
                  Truthful o data done o' := fun done o' => by rw [Truthful, Truthful, hwritten]
              simp only [hsame] at hbuffer
              rw [atFlush, if_neg hdata, if_neg hempty]
              simp only [hdata, hempty, false_implies, true_implies, true_and, not_false_eq_true]
              rw [(after_iff _).mp hbuffer]
              exact ⟨fun hall => ⟨hnot, hall⟩, fun hall => hall.2⟩

/-- A direct send of everything. -/
theorem write_truthful_iff_direct :
    After (write World.plain [1, 2] true) fresh fun done o' => Truthful fresh [1, 2] done o' := by
  refine (write_truthful_iff World.plain fresh [1, 2] true rfl).mpr (Or.inr (Or.inr ⟨?_, ?_⟩))
  · rintro ⟨-, -, hcount, -⟩
    exact absurd hcount (by decide)
  · intro o₁ hmem
    cases hmem

/-- The socket takes nothing, and write events cannot be subscribed to: the byte is held, and the
connection open, but the result is `false`. -/
theorem not_truthful_of_unsubscribed :
    ¬ After (write { World.plain with send := fun _ _ => .wouldBlock, epollMod := fun _ _ => false }
      [1] true) fresh fun done o' => Truthful fresh [1] done o' := by
  intro h
  exact absurd (h.run.2 (by decide)) (by decide)

end Seasocks.Output
