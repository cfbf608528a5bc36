import Seasocks.Proof.Flushing

/-!
# What is emitted

The bytes `::send` has accepted and those still in the output buffer, and what the output routines add
to them while the connection is open and nothing fails.
-/

namespace Seasocks.Output

open Program Relation

variable {w : World} {o : Output}

def emitted (o : Output) : Bytes := accepted o.log ++ o.outBuf

/-- On an open connection, unless one of the events in between is a failure, `bytes` are added and the
connection stays open. -/
def Emits (bytes : Bytes) (o o' : Output) : Prop :=
  ∃ events, o'.log = o.log ++ events ∧
    (o.closing = false → o.hadSendError = false → (∀ event ∈ events, isFailure event = false) →
      o'.closing = false ∧ o'.hadSendError = false ∧ emitted o' = emitted o ++ bytes)

/-- Only a failure leads from an open connection to this state. -/
def Fails (o o' : Output) : Prop :=
  ∃ events, o'.log = o.log ++ events ∧
    (o.closing = false → o.hadSendError = false →
      ∃ event ∈ events, isFailure event = true)

theorem Emits.refl (o : Output) : Emits [] o o :=
  ⟨[], by simp, fun hopen hnoError _ => ⟨hopen, hnoError, (List.append_nil _).symm⟩⟩

theorem Emits.trans {bytes bytes' : Bytes} {o' o'' : Output} (h : Emits bytes o o')
    (h' : Emits bytes' o' o'') : Emits (bytes ++ bytes') o o'' := by
  obtain ⟨events, hlog, hemits⟩ := h
  obtain ⟨events', hlog', hemits'⟩ := h'
  refine ⟨events ++ events', by rw [hlog', hlog, List.append_assoc], ?_⟩
  intro hopen hnoError hquiet
  rw [List.forall_mem_append] at hquiet
  obtain ⟨hopen', hnoError', hemitted⟩ := hemits hopen hnoError hquiet.1
  obtain ⟨hopen'', hnoError'', hemitted'⟩ := hemits' hopen' hnoError' hquiet.2
  refine ⟨hopen'', hnoError'', ?_⟩
  rw [hemitted', hemitted, List.append_assoc]

theorem Fails.emits {o' : Output} (h : Fails o o') (bytes : Bytes) : Emits bytes o o' := by
  obtain ⟨events, hlog, hfails⟩ := h
  refine ⟨events, hlog, fun hopen hnoError hquiet => ?_⟩
  obtain ⟨event, hmem, hfailure⟩ := hfails hopen hnoError
  rw [hquiet event hmem] at hfailure
  cases hfailure

/-- A failure after what was emitted. -/
theorem Emits.fails {bytes : Bytes} {o' o'' : Output} (h : Emits bytes o o') (h' : Fails o' o'') :
    Fails o o'' := by
  obtain ⟨events, hlog, hemits⟩ := h
  obtain ⟨events', hlog', hfails⟩ := h'
  refine ⟨events ++ events', by rw [hlog', hlog, List.append_assoc], ?_⟩
  intro hopen hnoError
  by_cases hquiet : ∀ event ∈ events, isFailure event = false
  · obtain ⟨hopen', hnoError', -⟩ := hemits hopen hnoError hquiet
    obtain ⟨event, hmem, hfailure⟩ := hfails hopen' hnoError'
    exact ⟨event, List.mem_append_right _ hmem, hfailure⟩
  · simp only [not_forall, Bool.not_eq_false] at hquiet
    obtain ⟨event, hmem, hfailure⟩ := hquiet
    exact ⟨event, List.mem_append_left _ hmem, hfailure⟩

/-- Whatever comes behind a failure. -/
theorem Fails.grow {o' o'' : Output} (h : Fails o o') (hgrow : o'.log <+: o''.log) :
    Fails o o'' := by
  obtain ⟨events, hlog, hfails⟩ := h
  obtain ⟨events', hlog'⟩ := hgrow
  refine ⟨events ++ events', by rw [← hlog', hlog, List.append_assoc], fun hopen hnoError => ?_⟩
  obtain ⟨event, hmem, hfailure⟩ := hfails hopen hnoError
  exact ⟨event, List.mem_append_left _ hmem, hfailure⟩

theorem emits_of_quiet {o' : Output} (hquiet : Quiet o o') (hflags : SameFlags o o')
    (hemitted : emitted o' = emitted o) : Emits [] o o' := by
  obtain ⟨events, hlog, hclosing, -⟩ := hquiet
  refine ⟨events, hlog, fun hopen hnoError hevents => ⟨hclosing hopen hevents, ?_, ?_⟩⟩
  · exact hflags.1.trans hnoError
  · rw [hemitted, List.append_nil]

/-- Taking up a write. -/
theorem emits_write (o : Output) (data : Bytes) :
    Emits [] o { o with log := o.log ++ [.write data] } := by
  refine emits_of_quiet (Quiet.of_log rfl rfl rfl) ⟨rfl, rfl⟩ ?_
  simp [emitted, acceptedBy]

/-! ### Flushing and closing -/

theorem closeInternal_emitted (o : Output) :
    After closeInternal o fun _ o' => emitted o' = emitted o := by
  simp only [closeInternal, record, after_bind, after_get, after_ite, after_modify]
  simp [emitted, acceptedBy]

theorem updateWriteEvents_emitted :
    After (updateWriteEvents w) o fun _ o' => emitted o' = emitted o := by
  refine updateWriteEvents_adjusts.mono fun updated o' hadjusts => ?_
  cases hadjusts <;> simp [emitted, acceptedBy]

/-- Whether a send succeeds or fails, what it reports is what has been accepted. -/
theorem safeSend_accepted (data : Bytes) :
    After (safeSend w data) o fun sent o' => o'.outBuf = o.outBuf ∧
      (sent ≠ -1 → accepted o'.log = accepted o.log ++ data.take sent.toNat) ∧
      (sent = -1 → accepted o'.log = accepted o.log) := by
  simp only [safeSend, record, after_bind, after_get, after_ite, after_modify, after_pure]
  refine ⟨fun _ => by simp, fun _ => ?_⟩
  cases w.send o.log data with
  | sent count =>
      simp only [after_bind, after_modify, after_pure]
      refine ⟨trivial, fun _ => ?_, fun hfailed => absurd hfailed (by omega)⟩
      rw [Int.toNat_natCast, accepted_append, accepted_singleton, acceptedBy,
        ← List.take_eq_take_min]
  | wouldBlock =>
      simp only [after_pure]
      refine ⟨trivial, fun _ => ?_, fun hfailed => absurd hfailed (by omega)⟩
      simp [acceptedBy]
  | failed =>
      simp only [after_bind, after_pure]
      refine ((closeInternal_emitted _).and (closeInternal_sameFlags _)).mono fun _ o' h => ?_
      obtain ⟨hemitted, -, houtBuf⟩ := h
      refine ⟨houtBuf, fun hne => absurd rfl hne, fun _ => ?_⟩
      rw [emitted, emitted, houtBuf] at hemitted
      simpa [acceptedBy] using hemitted

theorem flush_emitted : After (flush w) o fun _ o' => emitted o' = emitted o := by
  simp only [flush, after_bind, after_get, after_ite, after_modify, after_pure]
  refine ⟨fun _ => trivial, fun _ => ?_⟩
  refine (safeSend_accepted o.outBuf).mono fun sent o₁ h₁ => ?_
  obtain ⟨houtBuf, hsent, hfailed⟩ := h₁
  refine ⟨fun h => ?_, fun h => ?_⟩
  · rw [emitted, emitted, houtBuf, hfailed h]
  · have hdrop : emitted { o₁ with outBuf := o₁.outBuf.drop sent.toNat } = emitted o := by
      rw [emitted, emitted, hsent h, houtBuf, List.append_assoc, List.take_append_drop]
    refine updateWriteEvents_emitted.mono fun updated o₂ h₂ => ?_
    have hsame : emitted o₂ = emitted o := h₂.trans hdrop
    refine ⟨fun _ => ⟨fun _ => ?_, fun _ => hsame⟩, fun _ => hsame⟩
    exact (closeInternal_emitted o₂).mono fun _ o₃ h₃ => h₃.trans hsame

theorem handleDataReadyForWrite_emitted :
    After (handleDataReadyForWrite w) o fun _ o' => emitted o' = emitted o := by
  simp only [handleDataReadyForWrite, after_bind, after_get, after_ite, after_pure]
  exact ⟨fun _ => trivial, fun _ => flush_emitted⟩

theorem closeWhenEmpty_emitted (o : Output) :
    After closeWhenEmpty o fun _ o' => emitted o' = emitted o := by
  simp only [closeWhenEmpty, after_bind, after_get, after_ite, after_modify]
  exact ⟨fun _ => closeInternal_emitted o, fun _ => rfl⟩

theorem flush_emits : After (flush w) o fun _ o' => Emits [] o o' :=
  ((flush_quiet.and flush_sameFlags).and flush_emitted).mono fun _ _ h =>
    emits_of_quiet h.1.1 h.1.2 h.2

theorem handleDataReadyForWrite_emits :
    After (handleDataReadyForWrite w) o fun _ o' => Emits [] o o' := by
  simp only [handleDataReadyForWrite, after_bind, after_get, after_ite, after_pure]
  exact ⟨fun _ => Emits.refl o, fun _ => flush_emits⟩

/-! ### Writing -/

/-- How much of `data` a `::send` takes that does not fail. -/
def sendCount (w : World) (log : List OutEvent) (data : Bytes) : Option Nat :=
  match w.send log data with
  | .sent count => some (min count data.length)
  | .wouldBlock => some 0
  | .failed => none

/-- A direct send would take a part of the data only, but as many bytes as `static_cast<int>` makes of
the size. -/
def Truncates (w : World) (o : Output) (data : Bytes) : Prop :=
  o.outBuf = [] ∧ ∃ count < data.length,
    sendCount w (o.log ++ [.write data]) data = some count ∧ staticCastInt data.length = count

theorem not_truncates_of_lt {data : Bytes} (hsize : data.length < 2 ^ 32) : ¬ Truncates w o data := by
  rintro ⟨-, count, hcount, -, hcast⟩
  rw [staticCastInt, Nat.mod_eq_of_lt hsize] at hcast
  split_ifs at hcast
  · omega
  · omega

theorem safeSend_emits (data : Bytes) (hempty : o.outBuf = []) :
    After (safeSend w data) o fun sent o' => Fails o o' ∧ sent = -1 ∨
      ∃ count ≤ data.length, sent = (count : Nat) ∧ sendCount w o.log data = some count ∧
        Emits (data.take count) o o' := by
  simp only [safeSend, record, after_bind, after_get, after_ite, after_modify, after_pure]
  refine ⟨fun hclosed => Or.inl ⟨⟨[], by simp, fun hopen hnoError => ?_⟩, trivial⟩, fun _ => ?_⟩
  · rw [closing, Bool.or_eq_false_iff, closed, Bool.or_eq_false_iff] at hopen
    simp [hopen.1.1, hopen.1.2, hnoError] at hclosed
  · have hsent : ∀ count result, acceptedBy (.send data result) = data.take count →
        isFailure (.send data result) = false → Emits (data.take count) o
          { o with
            bytesSent := o.bytesSent + count
            log := o.log ++ [.send data result] } := by
      intro count result haccepted hquiet
      refine ⟨[.send data result], rfl, fun hopen hnoError _ => ⟨hopen, hnoError, ?_⟩⟩
      simp [emitted, hempty, haccepted]
    cases hresult : w.send o.log data with
    | sent count =>
        refine Or.inr ⟨min count data.length, Nat.min_le_right _ _, rfl, ?_, ?_⟩
        · rw [sendCount, hresult]
        · exact hsent _ (.sent count) (by simp [acceptedBy, ← List.take_eq_take_min]) rfl
    | wouldBlock =>
        refine Or.inr ⟨0, Nat.zero_le _, rfl, ?_, hsent 0 .wouldBlock (by simp [acceptedBy]) rfl⟩
        rw [sendCount, hresult]
    | failed =>
        simp only [after_bind, after_pure]
        refine (closeInternal_closes _).mono fun _ o' h => Or.inl ⟨?_, trivial⟩
        obtain ⟨⟨events, hlog⟩, -⟩ := h
        refine ⟨.send data .failed :: events, ?_, fun _ _ => ⟨_, List.mem_cons_self, rfl⟩⟩
        rw [hlog, List.append_assoc]
        rfl

theorem bufferAndFlush_emits (data : Bytes) (flushIt : Bool) :
    After (bufferAndFlush w data flushIt) o fun done o' =>
      Emits data o o' ∧ (flushIt = false → done = false → Fails o o') := by
  simp only [bufferAndFlush, record, after_bind, after_get, after_ite, after_modify, after_pure]
  constructor
  · intro _
    refine (closeInternal_closes _).mono fun _ o' h => ?_
    obtain ⟨⟨events, hlog⟩, -⟩ := h
    have hfails : Fails o o' := by
      refine ⟨.overflow :: events, ?_, fun _ _ => ⟨_, List.mem_cons_self, rfl⟩⟩
      rw [hlog, List.append_assoc]
      rfl
    exact ⟨hfails.emits data, fun _ _ => hfails⟩
  · intro _
    have hbuffer : Emits data o { o with outBuf := o.outBuf ++ data } :=
      ⟨[], by simp, fun hopen hnoError _ => ⟨hopen, hnoError, by simp [emitted]⟩⟩
    refine ⟨fun hflush => ?_, fun _ => ⟨hbuffer, fun _ hfailed => by cases hfailed⟩⟩
    refine flush_emits.mono fun done o' h => ⟨?_, fun hlater => ?_⟩
    · have hflushed := hbuffer.trans h
      rwa [List.append_nil] at hflushed
    · rw [hlater] at hflush
      cases hflush

/-- A write adds its data, unless it is sent at once and cut short. -/
theorem write_emits (data : Bytes) (flushIt : Bool)
    (hwhole : flushIt = true → ¬ Truncates w o data) :
    After (write w data flushIt) o fun done o' =>
      Emits data o o' ∧ (flushIt = false → done = false → Fails o o') := by
  simp only [Output.write, record, after_bind, after_get, after_ite, after_modify, after_pure]
  constructor
  · intro hclosing
    have hfails : Fails o o :=
      ⟨[], by simp, fun hopen => absurd (hopen.symm.trans hclosing) Bool.false_ne_true⟩
    exact ⟨hfails.emits data, fun _ _ => hfails⟩
  · intro _
    have htaken := emits_write o data
    refine ⟨fun hempty => ?_, fun _ => ⟨fun hdirect => ?_, fun _ => ?_⟩⟩
    · subst hempty
      refine ⟨fun hflush => ?_, fun _ => ⟨htaken, fun _ hfailed => by cases hfailed⟩⟩
      refine flush_emits.mono fun done o' h => ⟨htaken.trans h, fun hlater => ?_⟩
      rw [hlater] at hflush
      cases hflush
    · obtain ⟨hempty, hflush⟩ := hdirect
      refine (safeSend_emits (o := { o with log := o.log ++ [.write data] }) data hempty).mono
        fun sent o₁ h₁ => ?_
      have hnow : flushIt = false → ∀ {p : Prop}, p := by
        intro hlater
        rw [hlater] at hflush
        cases hflush
      rcases h₁ with ⟨hfails, rfl⟩ | ⟨count, hcount, rfl, hsent, hemits⟩
      · have hfailed := (htaken.fails hfails).emits data
        exact ⟨fun _ => ⟨hfailed, fun h => hnow h⟩, fun _ =>
          ⟨fun _ => ⟨hfailed, fun h => hnow h⟩, fun hne => absurd rfl hne⟩⟩
      · have hpart := htaken.trans hemits
        refine ⟨fun hall => ⟨?_, fun h => hnow h⟩, fun _ => ⟨fun hfailed => ?_, fun _ => ?_⟩⟩
        · have hend : count = data.length := by
            by_contra hne
            exact hwhole hflush ⟨hempty, count, by omega, hsent, hall.symm⟩
          rwa [hend, List.take_length] at hpart
        · omega
        · refine (bufferAndFlush_emits _ _).mono fun done o' h => ⟨?_, fun h => hnow h⟩
          have hrest := hpart.trans h.1
          rwa [List.nil_append, Int.toNat_natCast, List.take_append_drop] at hrest
    · refine (bufferAndFlush_emits _ _).mono fun done o' h => ⟨htaken.trans h.1, fun hlater hfailed => ?_⟩
      exact htaken.fails (h.2 hlater hfailed)

/-- What is cut short is lost, and nobody notices. -/
theorem write_loses {data : Bytes} (hopen : o.closing = false) (hnoError : o.hadSendError = false)
    (htruncates : Truncates w o data) :
    After (write w data true) o fun done o' => done = true ∧ o'.closing = false ∧
      (∃ result, o'.log = o.log ++ [.write data, .send data result] ∧
        isFailure (.send data result) = false) ∧
      (emitted o').length < (emitted o).length + data.length := by
  obtain ⟨hempty, count, hcount, hsent, hcast⟩ := htruncates
  have hnonempty : data ≠ [] := by
    rintro rfl
    exact Nat.not_lt_zero _ hcount
  have hclosed : (!o.fd || o.hadSendError || o.shutdown) = false := by
    rw [closing, closed, Bool.or_eq_false_iff, Bool.or_eq_false_iff] at hopen
    rw [hnoError, Bool.or_false, hopen.1.1, hopen.1.2]
    rfl
  have hrefused : (o.closed || o.closeOnEmpty) = false := hopen
  have hlength : ∀ result, acceptedBy (.send data result) = data.take count →
      (emitted { o with
        bytesSent := o.bytesSent + count
        log := o.log ++ [.write data] ++ [.send data result] }).length
        < (emitted o).length + data.length := by
    intro result haccepted
    have hwritten : acceptedBy (.write data) = [] := rfl
    rw [emitted, emitted, accepted_append, accepted_append, accepted_singleton, accepted_singleton,
      haccepted, hwritten, hempty]
    simp only [List.append_nil, List.length_append, List.length_take]
    omega
  simp only [Output.write, safeSend, record, after_bind, after_get, after_modify, after_ite, after_pure]
  refine ⟨fun hno => absurd (hrefused.symm.trans hno) Bool.false_ne_true, fun _ => ?_⟩
  refine ⟨fun hnil => absurd hnil hnonempty, fun _ => ⟨fun _ => ?_, fun hnot => ?_⟩⟩
  · refine ⟨fun hno => absurd (hclosed.symm.trans hno) Bool.false_ne_true, fun _ => ?_⟩
    rw [sendCount] at hsent
    cases hresult : w.send (o.log ++ [.write data]) data with
    | sent sent =>
        rw [hresult] at hsent
        injection hsent with hsent
        simp only [after_bind, after_modify, after_pure, hsent]
        refine ⟨fun _ => ⟨trivial, hopen, ⟨.sent sent, by simp, rfl⟩, ?_⟩, fun hne =>
          absurd hcast.symm hne⟩
        exact hlength (.sent sent) (by simp [acceptedBy, List.take_eq_take_min, ← hsent])
    | wouldBlock =>
        rw [hresult] at hsent
        injection hsent with hsent
        simp only [after_pure]
        refine ⟨fun _ => ⟨trivial, hopen, ⟨.wouldBlock, by simp, rfl⟩, ?_⟩, fun hne => ?_⟩
        · have hlost := hlength .wouldBlock (by simp [acceptedBy, ← hsent])
          rw [← hsent] at hlost
          exact hlost
        · rw [hcast, ← hsent] at hne
          exact absurd rfl hne
    | failed =>
        rw [hresult] at hsent
        cases hsent
  · exact absurd ⟨hempty, trivial⟩ hnot

theorem write_false_emits (data : Bytes) :
    After (write w data false) o fun done o' => Emits data o o' ∧ (done = false → Fails o o') :=
  (write_emits data false fun hflush => by cases hflush).mono fun _ _ h => ⟨h.1, h.2 rfl⟩

/-- A failure, or something in the buffer, which keeps the next write from being sent at once. -/
def Buffered (o o' : Output) : Prop := Fails o o' ∨ o'.outBuf ≠ []

theorem write_false_buffered (data : Bytes) (hdata : data ≠ []) :
    After (write w data false) o fun done o' => done = true → o'.outBuf ≠ [] := by
  simp only [Output.write, bufferAndFlush, record, after_bind, after_get, after_modify, after_ite,
    after_pure]
  have hno : ∀ {p : Prop}, false = true → p := fun h => absurd h Bool.false_ne_true
  refine ⟨fun _ => hno, fun _ => ⟨fun hempty => absurd hempty hdata, fun _ => ?_⟩⟩
  refine ⟨fun hdirect => hno hdirect.2, fun _ => ⟨fun _ => ?_, fun _ => ?_⟩⟩
  · exact After.of_forall fun _ _ => hno
  · exact ⟨hno, fun _ _ => List.append_ne_nil_of_right_ne_nil _ hdata⟩

theorem write_false_bufferedEmits (data : Bytes) (hdata : data ≠ []) :
    After (write w data false) o fun done o' =>
      Emits data o o' ∧ Buffered o o' ∧ (done = false → Fails o o') := by
  refine ((write_false_emits data).and (write_false_buffered data hdata)).mono fun done o' h => ?_
  refine ⟨h.1.1, ?_, h.1.2⟩
  cases done with
  | true => exact Or.inr (h.2 rfl)
  | false => exact Or.inl (h.1.2 rfl)

/-- Behind something buffered, a write adds its data whatever its size. -/
theorem write_emits_of_buffered {bytes : Bytes} {o' : Output} (data : Bytes) (flushIt : Bool)
    (hemits : Emits bytes o o') (hbuffered : Buffered o o') :
    After (write w data flushIt) o' fun _ o'' => Emits (bytes ++ data) o o'' := by
  rcases hbuffered with hfails | hfull
  · refine (write_quiet data flushIt).mono fun _ o'' hquiet => ?_
    obtain ⟨events, hlog, -⟩ := hquiet
    exact (hfails.grow ⟨events, hlog.symm⟩).emits _
  · refine (write_emits data flushIt fun _ htruncates => hfull htruncates.1).mono fun _ o'' h => ?_
    exact hemits.trans h.1

/-! ### Up to a failure -/

/-- A beginning of `bytes` is emitted: all of them, unless the connection closes. -/
def Begins (bytes : Bytes) (o o' : Output) : Prop :=
  ∃ sent, sent <+: bytes ∧ emitted o' = emitted o ++ sent ∧ (o'.closing = false → sent = bytes)

theorem begins_nil {o' : Output} (h : emitted o' = emitted o) : Begins [] o o' :=
  ⟨[], List.nil_prefix, by rw [h, List.append_nil], fun _ => rfl⟩

theorem Begins.emitted_eq {o' : Output} (h : Begins [] o o') : emitted o' = emitted o := by
  obtain ⟨sent, hsent, hemitted, -⟩ := h
  rw [hemitted, List.prefix_nil.mp hsent, List.append_nil]

/-- Of what comes behind a close nothing is emitted. -/
theorem Begins.trans {bytes bytes' : Bytes} {o' o'' : Output} (h : Begins bytes o o')
    (h' : Begins bytes' o' o'') (hclosing : o'.closing = true → emitted o'' = emitted o' ∧ o''.closing = true) :
    Begins (bytes ++ bytes') o o'' := by
  obtain ⟨sent, hsent, hemitted, hwhole⟩ := h
  obtain ⟨sent', hsent', hemitted', hwhole'⟩ := h'
  by_cases hclosed : o'.closing = true
  · obtain ⟨hsame, hclosed'⟩ := hclosing hclosed
    refine ⟨sent, hsent.trans (List.prefix_append _ _), hsame.trans hemitted, fun hopen => ?_⟩
    rw [hclosed'] at hopen
    cases hopen
  · obtain rfl : sent = bytes := hwhole (Bool.eq_false_iff.mpr hclosed)
    refine ⟨sent ++ sent', (List.prefix_append_right_inj _).mpr hsent', ?_, fun hopen => ?_⟩
    · rw [hemitted', hemitted, List.append_assoc]
    · rw [hwhole' hopen]

theorem Begins.of_closing {bytes : Bytes} {o' : Output} (h : Begins bytes o o') (hclosing : o'.closing = true)
    (more : Bytes) : Begins (bytes ++ more) o o' := by
  obtain ⟨sent, hsent, hemitted, -⟩ := h
  refine ⟨sent, hsent.trans (List.prefix_append _ _), hemitted, fun hopen => ?_⟩
  rw [hclosing] at hopen
  cases hopen

/-- A connection that is closing does not take up a write. -/
theorem write_closing (data : Bytes) (flushIt : Bool) (hclosing : o.closing = true) :
    After (write w data flushIt) o fun done o' => done = false ∧ o' = o := by
  have hrefused : (o.closed || o.closeOnEmpty) = true := hclosing
  rw [Output.write, after_bind, after_get, if_pos hrefused]
  exact ⟨rfl, rfl⟩

theorem bufferAndFlush_begins (data : Bytes) (flushIt : Bool) :
    After (bufferAndFlush w data flushIt) o fun done o' =>
      Begins data o o' ∧ (flushIt = false → done = false → o'.closing = true) := by
  simp only [bufferAndFlush, record, after_bind, after_get, after_ite, after_modify, after_pure]
  refine ⟨fun _ => ?_, fun _ => ⟨fun hflush => ?_, fun _ => ?_⟩⟩
  · refine ((closeInternal_emitted _).and (closeInternal_closes _)).mono fun _ o' h => ?_
    have hclosing := closing_of_closed h.2.2
    have hnothing : Begins [] o o' := by
      refine begins_nil (h.1.trans ?_)
      simp [emitted, acceptedBy]
    exact ⟨hnothing.of_closing hclosing data, fun _ _ => hclosing⟩
  · refine flush_emitted.mono fun _ o' h => ⟨⟨data, List.prefix_rfl, ?_, fun _ => rfl⟩, fun hlater => ?_⟩
    · rw [h, emitted, emitted, List.append_assoc]
    · rw [hlater] at hflush
      cases hflush
  · refine ⟨⟨data, List.prefix_rfl, ?_, fun _ => rfl⟩, fun _ hfailed => by cases hfailed⟩
    rw [emitted, emitted, List.append_assoc]

/-- A write that is not sent at once is taken up as a whole, or the connection closes. -/
theorem write_begins (data : Bytes) (flushIt : Bool) (hlater : flushIt = true → o.outBuf ≠ []) :
    After (write w data flushIt) o fun done o' =>
      Begins data o o' ∧ (flushIt = false → done = false → o'.closing = true) := by
  have taken : emitted { o with log := o.log ++ [.write data] } = emitted o := by
    simp [emitted, acceptedBy]
  simp only [Output.write, record, after_bind, after_get, after_ite, after_modify, after_pure]
  refine ⟨fun hclosing => ?_, fun _ => ⟨fun hempty => ?_, fun _ => ⟨fun hdirect => ?_, fun _ => ?_⟩⟩⟩
  · exact ⟨(begins_nil rfl).of_closing hclosing data, fun _ _ => hclosing⟩
  · subst hempty
    refine ⟨fun hflush => flush_emitted.mono fun _ o' h => ?_, fun _ => ?_⟩
    · refine ⟨begins_nil (h.trans taken), fun hno => ?_⟩
      rw [hno] at hflush
      cases hflush
    · exact ⟨begins_nil taken, fun _ hfailed => by cases hfailed⟩
  · exact absurd hdirect.1 (hlater hdirect.2)
  · refine (bufferAndFlush_begins data flushIt).mono fun done o' h => ⟨?_, h.2⟩
    obtain ⟨sent, hsent, hemitted, hwhole⟩ := h.1
    exact ⟨sent, hsent, hemitted.trans (by rw [taken]), hwhole⟩

/-- A write behind a write. -/
theorem Begins.write {bytes : Bytes} {o' : Output} (h : Begins bytes o o') (data : Bytes) (flushIt : Bool)
    (hlater : flushIt = true → o'.outBuf ≠ []) :
    After (Output.write w data flushIt) o' fun done o'' =>
      Begins (bytes ++ data) o o'' ∧ (flushIt = false → done = false → o''.closing = true) := by
  by_cases hclosing : o'.closing = true
  · refine (write_closing data flushIt hclosing).mono fun done o'' h'' => ?_
    rw [h''.2]
    exact ⟨h.of_closing hclosing data, fun _ _ => hclosing⟩
  · refine (write_begins data flushIt hlater).mono fun done o'' h'' => ⟨?_, h''.2⟩
    exact h.trans h''.1 fun hclosed => absurd hclosed hclosing

/-! ### Lines -/

theorem bufferLine_emits (line : Bytes) :
    After (bufferLine w line) o fun _ o' => Emits (line ++ crlf) o o' :=
  (write_false_emits _).mono fun _ _ h => h.1

theorem bufferText_emits (line : String) :
    After (bufferText w line) o fun _ o' => Emits (ascii line ++ crlf) o o' := by
  refine (write_false_emits (ascii line)).bind fun done o₁ h₁ => ?_
  rw [after_ite]
  refine ⟨fun _ => ?_, fun hfailed => ?_⟩
  · exact (write_false_emits crlf).mono fun _ o₂ h₂ => h₁.1.trans h₂.1
  · exact (h₁.2 (by simpa using hfailed)).emits _

theorem crlf_ne_nil : crlf ≠ [] := List.cons_ne_nil _ _

theorem bufferText_buffered (line : String) :
    After (bufferText w line) o fun _ o' => Buffered o o' := by
  refine (write_false_emits (ascii line)).bind fun done o₁ h₁ => ?_
  rw [after_ite]
  refine ⟨fun _ => ?_, fun hfailed => Or.inl (h₁.2 (by simpa using hfailed))⟩
  refine (write_false_bufferedEmits crlf crlf_ne_nil).mono fun _ o₂ h₂ => ?_
  exact h₂.2.1.imp_left h₁.1.fails

/-- The status line and the header lines every response has, at a given time. -/
def commonHead (w : World) (code : ResponseCode) (date : Bytes) : Bytes :=
  ascii "HTTP/1.1 " ++ decimal code.toNat ++ ascii " " ++ code.name ++ crlf ++
    (ascii "Server: " ++ w.version ++ crlf) ++
    (ascii "Date: " ++ date ++ crlf) ++
    (ascii "Access-Control-Allow-Origin: *" ++ crlf)

theorem bufferResponseAndCommonHeaders_emits (code : ResponseCode) :
    After (bufferResponseAndCommonHeaders w code) o fun _ o' =>
      ∃ log, Emits (commonHead w code (w.now log)) o o' := by
  refine (bufferLine_emits _).bind fun _ o₁ h₁ => (bufferLine_emits _).bind fun _ o₂ h₂ => ?_
  rw [after_bind, after_get]
  refine (bufferLine_emits _).bind fun _ o₃ h₃ => (bufferText_emits _).bind fun _ o₄ h₄ => ?_
  exact ⟨o₂.log, ((h₁.trans h₂).trans h₃).trans h₄⟩

end Seasocks.Output
